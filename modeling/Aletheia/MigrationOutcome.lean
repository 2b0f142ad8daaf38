import Mathlib.Data.Nat.Find
import Aletheia.ShardMigration

/-!
# What a migration leaves behind

A migration should end if the source reports its last batch from some offset on, have every served
batch accepted once when it succeeds, and leave no label registered for dual writes when it fails. It
does so exactly for the behaviours of the clients that avoid two defects: an error during the copy or
the comparison leaves the labels registered, and an empty batch that is not the last one is asked for
again at the same offset.
-/

namespace Aletheia.ShardMigration

open List Relation

variable {result : Except MigrationError Unit} {c' : Copying}

/-! ### The course of the copy, read off the answers -/

section Course

variable (config : MigrationConfig) (behaviour : Behaviour)

/-- The target answers after `tries` failures, within the retries. -/
def Delivered (retries sent : ℕ) (batch : MigrationBatch) (tries : ℕ) (response : MigrationResponse) :
    Prop :=
  tries ≤ retries ∧ (∀ t < tries, ∃ e, behaviour.receive (sent + t) batch = .error e) ∧
    behaviour.receive (sent + tries) batch = .ok response

/-- All the tries fail. -/
def Undeliverable (retries sent : ℕ) (batch : MigrationBatch) : Prop :=
  ∀ t ≤ retries, ∃ e, behaviour.receive (sent + t) batch = .error e

/-- The source serves a batch that is not the last one, and it is skipped or accepted. -/
inductive Advances : Position → Position → Prop
  | skip {i offset sent : ℕ} {batch : MigrationBatch} (hflag : behaviour.cancelled i = false)
    (hserved : behaviour.extract i offset = .ok batch) (hempty : batch.Empty)
    (hlast : batch.isLast = false) : Advances ⟨i, offset, sent⟩ ⟨i + 1, offset, sent⟩
  | take {i offset sent tries : ℕ} {batch : MigrationBatch} {response : MigrationResponse}
    (hflag : behaviour.cancelled i = false) (hserved : behaviour.extract i offset = .ok batch)
    (hfull : ¬batch.Empty) (hlast : batch.isLast = false)
    (hdelivered : Delivered behaviour config.batchRetries sent batch tries response)
    (haccepted : response.accepted = true) :
    Advances ⟨i, offset, sent⟩ ⟨i + 1, add64 offset config.batchSize, sent + tries + 1⟩

/-- The source serves the last batch, and it is empty or accepted. -/
inductive Finishes : Position → Prop
  | skip {i offset sent : ℕ} {batch : MigrationBatch} (hflag : behaviour.cancelled i = false)
    (hserved : behaviour.extract i offset = .ok batch) (hempty : batch.Empty)
    (hlast : batch.isLast = true) : Finishes ⟨i, offset, sent⟩
  | take {i offset sent tries : ℕ} {batch : MigrationBatch} {response : MigrationResponse}
    (hflag : behaviour.cancelled i = false) (hserved : behaviour.extract i offset = .ok batch)
    (hfull : ¬batch.Empty) (hlast : batch.isLast = true)
    (hdelivered : Delivered behaviour config.batchRetries sent batch tries response)
    (haccepted : response.accepted = true) : Finishes ⟨i, offset, sent⟩

/-- The migration is cancelled, the source fails, or the target rejects a batch or fails too often. -/
inductive Breaks : Position → Prop
  | cancelled {i offset sent : ℕ} (hflag : behaviour.cancelled i = true) : Breaks ⟨i, offset, sent⟩
  | source {i offset sent : ℕ} {e : NetworkError} (hflag : behaviour.cancelled i = false)
    (herror : behaviour.extract i offset = .error e) : Breaks ⟨i, offset, sent⟩
  | rejected {i offset sent tries : ℕ} {batch : MigrationBatch} {response : MigrationResponse}
    (hflag : behaviour.cancelled i = false) (hserved : behaviour.extract i offset = .ok batch)
    (hfull : ¬batch.Empty)
    (hdelivered : Delivered behaviour config.batchRetries sent batch tries response)
    (hrejected : response.accepted = false) : Breaks ⟨i, offset, sent⟩
  | target {i offset sent : ℕ} {batch : MigrationBatch} (hflag : behaviour.cancelled i = false)
    (hserved : behaviour.extract i offset = .ok batch) (hfull : ¬batch.Empty)
    (hundeliverable : Undeliverable behaviour config.batchRetries sent batch) :
    Breaks ⟨i, offset, sent⟩

/-- The positions the copy comes to. -/
def Reached : Position → Prop := Relation.ReflTransGen (Advances config behaviour) ⟨0, 0, 0⟩

/-- No position the copy comes to is its end. -/
def Endless : Prop := ∀ p, Reached config behaviour p → ∃ q, Advances config behaviour p q

end Course

/-! ### The property and its failures -/

/-- Every answer for an offset from `n` on is a last batch. -/
def LastFrom (behaviour : Behaviour) (n : ℕ) : Prop :=
  ∀ k offset batch, n ≤ offset → offset < 2 ^ 64 → behaviour.extract k offset = .ok batch →
    batch.isLast = true

/-- From some offset on the source serves last batches only. -/
def ReportsLast (behaviour : Behaviour) : Prop := ∃ n < 2 ^ 64, LastFrom behaviour n

/-- Every node and edge served, up to the last batch, was accepted once. -/
structure AcceptedOnce (served accepted : List MigrationBatch) : Prop where
  last : ∃ batch, served.getLast? = some batch ∧ batch.isLast = true
  batches : accepted = served.filter fun b => ¬b.Empty
  nodes : accepted.flatMap (·.nodes) = served.flatMap (·.nodes)
  edges : accepted.flatMap (·.edges) = served.flatMap (·.edges)

structure Correct (behaviour : Behaviour) (x : Executor) (plan : MigrationPlan) : Prop where
  ends : ReportsLast behaviour → ∃ fuel outcome, x.execute fuel behaviour plan = some outcome
  accepts : ∀ fuel outcome stats, x.execute fuel behaviour plan = some outcome →
    outcome.result = .ok stats → AcceptedOnce outcome.served outcome.accepted
  unregisters : ∀ fuel outcome e, x.execute fuel behaviour plan = some outcome →
    outcome.result = .error e → ∀ label ∈ plan.labelsToMigrate,
      outcome.executor.router.isLabelMigrating label = false ∧
        ∀ primary, outcome.executor.router.routeWrite label primary = [primary]

def HasClients (x : Executor) (plan : MigrationPlan) : Prop :=
  plan.sourceShard ∈ x.clients ∧ plan.targetShard ∈ x.clients

/-- A shard cannot be compared, or the target has no nodes where there should be some. -/
def StatesDiffer (behaviour : Behaviour) (plan : MigrationPlan) : Prop :=
  (∃ e, behaviour.sourceState = .error e) ∨ (∃ e, behaviour.targetState = .error e) ∨
    ∃ target, behaviour.targetState = .ok target ∧ target.nodeCount = 0 ∧ plan.progress.totalNodes > 0

/-- The kinds of inputs on which it does not. -/
inductive Fails (behaviour : Behaviour) (x : Executor) (plan : MigrationPlan) : Prop
  /-- a label was registered before, and a client is missing -/
  | before (hclients : ¬HasClients x plan) {label : String} (hlabel : label ∈ plan.labelsToMigrate)
    (hregistered : x.router.isLabelMigrating label = true) : Fails behaviour x plan
  /-- the copy breaks -/
  | copying (hclients : HasClients x plan) (hlabels : plan.labelsToMigrate ≠ []) {p : Position}
    (hreached : Reached x.config behaviour p) (hbreaks : Breaks x.config behaviour p) :
    Fails behaviour x plan
  /-- the comparison fails after the copy -/
  | verifying (hclients : HasClients x plan) (hlabels : plan.labelsToMigrate ≠ []) {p : Position}
    (hreached : Reached x.config behaviour p) (hfinishes : Finishes x.config behaviour p)
    (hflag : behaviour.cancelled (p.iterations + 1) = false) (hdiffer : StatesDiffer behaviour plan) :
    Fails behaviour x plan
  /-- the copy goes on forever -/
  | stalled (hclients : HasClients x plan) (hlast : ReportsLast behaviour)
    (hendless : Endless x.config behaviour) : Fails behaviour x plan

/-! ### The router -/

section Router

variable {r : DualWriteRouter} {labels : List String} {label : String}

lemma isLabelMigrating_iff : r.isLabelMigrating label = true ↔ ∃ e ∈ r.activeMigrations, e.1 = label := by
  simp [DualWriteRouter.isLabelMigrating]

lemma isLabelMigrating_register {source target : Sharding.ShardId} (h : label ∈ labels) :
    (r.registerMigration labels source target).isLabelMigrating label = true := by
  rw [isLabelMigrating_iff]
  -- once registered, a label stays: a later one replaces only its own entry
  have hkeeps : ∀ (rest : List String) (m : List (String × Sharding.ShardId × Sharding.ShardId)),
      (∃ e ∈ m, e.1 = label) ∨ label ∈ rest → ∃ e ∈ rest.foldl (fun m label =>
        (label, source, target) :: m.filter fun e => !(e.1 == label)) m, e.1 = label := by
    intro rest
    induction rest with
    | nil => exact fun m hm => hm.resolve_right (by simp)
    | cons l rest ih =>
      intro m hm
      refine ih _ ?_
      by_cases hl : l = label
      · exact .inl ⟨(l, source, target), mem_cons_self, hl⟩
      · rcases hm with ⟨e, he, hlabel⟩ | hmem
        · refine .inl ⟨e, mem_cons_of_mem _ (mem_filter.mpr ⟨he, ?_⟩), hlabel⟩
          simpa [hlabel] using Ne.symm hl
        · exact .inr ((mem_cons.mp hmem).resolve_left (Ne.symm hl))
  exact hkeeps labels _ (.inr h)

lemma isLabelMigrating_unregister (h : label ∈ labels) :
    (r.unregisterMigration labels).isLabelMigrating label = false := by
  rw [Bool.eq_false_iff, ne_eq, isLabelMigrating_iff]
  have hgone : ∀ (rest : List String) (m : List (String × Sharding.ShardId × Sharding.ShardId)),
      (∀ e ∈ m, e.1 ≠ label) ∨ label ∈ rest →
        ∀ e ∈ rest.foldl (fun m label => m.filter fun e => !(e.1 == label)) m, e.1 ≠ label := by
    intro rest
    induction rest with
    | nil => exact fun m hm => hm.resolve_right (by simp)
    | cons l rest ih =>
      intro m hm
      refine ih _ ?_
      by_cases hl : l = label
      · refine .inl fun e he => ?_
        simpa [hl] using (mem_filter.mp he).2
      · refine hm.imp (fun hm e he => hm e (mem_filter.mp he).1) fun hmem => ?_
        exact (mem_cons.mp hmem).resolve_left (Ne.symm hl)
  rintro ⟨e, he, hlabel⟩
  exact hgone labels _ (.inr h) e he hlabel

lemma routeWrite_of_not_migrating {primary : Sharding.ShardId} (h : r.isLabelMigrating label = false) :
    r.routeWrite label primary = [primary] := by
  have hnone : r.activeMigrations.lookup label = none := by
    rw [lookup_eq_none_iff]
    intro e he
    have hne := Bool.eq_false_iff.mp h
    rw [ne_eq, isLabelMigrating_iff] at hne
    exact bne_iff_ne.mpr fun heq => hne ⟨e, he, heq.symm⟩
  rw [DualWriteRouter.routeWrite, hnone]

end Router

/-! ### The loop follows the course -/

section Loop

variable {config : MigrationConfig} {behaviour : Behaviour} {batch : MigrationBatch}
  {c : Copying} {p q : Position} {planId : ℕ} {fuel : ℕ}

/-- What is accepted is what was served and not empty. -/
def Copying.Balanced (c : Copying) : Prop := c.accepted = c.served.filter fun b => ¬b.Empty

lemma transfer_delivered {retries tries : ℕ} {response : MigrationResponse}
    (h : Delivered behaviour retries c.position.sent batch tries response) :
    ∃ c', transfer behaviour batch retries c =
        (c', if response.accepted then .ok ()
          else .error (.batchRejected c.batchNumber (response.error.getD "Unknown"))) ∧
      c'.position = { c.position with sent := c.position.sent + tries + 1 } ∧ c'.served = c.served ∧
      (response.accepted = true → c'.accepted = c.accepted ++ [batch]) := by
  obtain ⟨hle, hfail, hok⟩ := h
  induction tries generalizing retries c with
  | zero =>
    rw [Nat.add_zero] at hok
    rw [transfer.eq_def, hok]
    simp only
    split
    next haccepted => exact ⟨_, rfl, rfl, rfl, fun _ => rfl⟩
    next haccepted => exact ⟨_, rfl, rfl, rfl, fun h => absurd h haccepted⟩
  | succ tries ih =>
    obtain ⟨e, he⟩ := hfail 0 (by omega)
    rw [Nat.add_zero] at he
    obtain ⟨retries, rfl⟩ : ∃ n, retries = n + 1 := ⟨retries - 1, by omega⟩
    have hsent : c.send.position.sent = c.position.sent + 1 := rfl
    obtain ⟨c', htransfer, hposition, hserved, haccepted⟩ := ih (c := c.send) (Nat.le_of_succ_le_succ hle)
      (fun t ht => by
        have := hfail (t + 1) (by omega)
        rwa [hsent, Nat.add_assoc, Nat.add_comm 1])
      (by rwa [hsent, Nat.add_assoc, Nat.add_comm 1])
    refine ⟨c', ?_, ?_, hserved, haccepted⟩
    · rw [transfer.eq_def, he]
      exact htransfer
    · rw [hposition, hsent, Nat.add_right_comm c.position.sent 1 tries]
      rfl

lemma transfer_undeliverable {retries : ℕ}
    (h : Undeliverable behaviour retries c.position.sent batch) :
    ∃ c' e, transfer behaviour batch retries c = (c', .error e) := by
  induction retries generalizing c with
  | zero =>
    obtain ⟨e, he⟩ := h 0 le_rfl
    rw [Nat.add_zero] at he
    rw [transfer.eq_def, he]
    exact ⟨_, _, rfl⟩
  | succ retries ih =>
    obtain ⟨e, he⟩ := h 0 (by omega)
    rw [Nat.add_zero] at he
    obtain ⟨c', e', htransfer⟩ := ih (c := c.send) fun t ht => by
      have := h (t + 1) (by omega)
      rwa [show c.send.position.sent = c.position.sent + 1 from rfl, Nat.add_assoc, Nat.add_comm 1]
    refine ⟨c', e', ?_⟩
    rw [transfer.eq_def, he]
    exact htransfer

variable (behaviour) in
lemma delivered_or_undeliverable (retries sent : ℕ) (batch : MigrationBatch) :
    (∃ tries response, Delivered behaviour retries sent batch tries response) ∨
      Undeliverable behaviour retries sent batch := by
  by_cases h : Undeliverable behaviour retries sent batch
  · exact .inr h
  · -- the first try that does not fail
    have hsome : ∃ t, t ≤ retries ∧ ∃ response, behaviour.receive (sent + t) batch = .ok response := by
      simp only [Undeliverable, not_forall] at h
      obtain ⟨t, ht, hnot⟩ := h
      rcases hreceive : behaviour.receive (sent + t) batch with e | response
      · exact absurd ⟨e, hreceive⟩ hnot
      · exact ⟨t, ht, response, hreceive⟩
    classical
    obtain ⟨hle, response, hok⟩ := Nat.find_spec hsome
    refine .inl ⟨Nat.find hsome, response, hle, fun t ht => ?_, hok⟩
    have hmin := Nat.find_min hsome ht
    rcases hreceive : behaviour.receive (sent + t) batch with e | response'
    · exact ⟨e, rfl⟩
    · exact absurd ⟨by omega, response', hreceive⟩ hmin

lemma balanced_take (hbalanced : c.Balanced) (hfull : ¬batch.Empty)
    (hserved : c'.served = (c.serve batch).served)
    (haccepted : c'.accepted = (c.serve batch).accepted ++ [batch]) : c'.Balanced := by
  rw [Copying.Balanced, hserved, haccepted]
  simp only [Copying.serve, filter_append, filter_singleton, decide_not, hfull]
  exact congrArg (· ++ [batch]) (by simpa [Copying.Balanced] using hbalanced)

lemma balanced_skip (hbalanced : c.Balanced) (hempty : batch.Empty) : (c.serve batch).Balanced := by
  rw [Copying.Balanced]
  simp only [Copying.serve, filter_append, filter_singleton, decide_not, hempty]
  simpa [Copying.Balanced] using hbalanced

variable (planId) in
lemma copyRound_advances (h : Advances config behaviour p q) (hp : c.position = p) :
    ∃ c', copyRound config behaviour planId c = (c', none) ∧ c'.position = q ∧
      (c.Balanced → c'.Balanced) := by
  cases h with
  | @skip i offset sent batch hflag hserved hempty hlast =>
    refine ⟨c.serve batch, ?_, by simp [Copying.serve, hp], fun h => balanced_skip h hempty⟩
    simp [copyRound, hp, hflag, hserved, hempty, hlast]
  | @take i offset sent tries batch response hflag hserved hfull hlast hdelivered haccepted =>
    obtain ⟨c', htransfer, hposition, hserved', haccepted'⟩ :=
      transfer_delivered (c := c.serve batch) (by simpa [Copying.serve, hp] using hdelivered)
    rw [haccepted, if_pos rfl] at htransfer
    refine ⟨c'.next config.batchSize, ?_, ?_, fun h => ?_⟩
    · simp only [copyRound, hp, hflag, hserved, hfull, htransfer, hlast]
      rfl
    · simp [Copying.next, hposition, Copying.serve, hp]
    · have hbalanced : c'.Balanced := balanced_take h hfull hserved' (haccepted' haccepted)
      exact hbalanced

variable (planId) in
lemma copyRound_finishes (h : Finishes config behaviour p) (hp : c.position = p) :
    ∃ c', copyRound config behaviour planId c = (c', some (.ok ())) ∧
      c'.position.iterations = p.iterations + 1 ∧
      (∃ batch, c'.served.getLast? = some batch ∧ batch.isLast = true) ∧
      (c.Balanced → c'.Balanced) := by
  cases h with
  | @skip i offset sent batch hflag hserved hempty hlast =>
    refine ⟨c.serve batch, ?_, by simp [Copying.serve, hp], ⟨batch, by simp [Copying.serve], hlast⟩,
      fun h => balanced_skip h hempty⟩
    simp [copyRound, hp, hflag, hserved, hempty, hlast]
  | @take i offset sent tries batch response hflag hserved hfull hlast hdelivered haccepted =>
    obtain ⟨c', htransfer, hposition, hserved', haccepted'⟩ :=
      transfer_delivered (c := c.serve batch) (by simpa [Copying.serve, hp] using hdelivered)
    rw [haccepted, if_pos rfl] at htransfer
    refine ⟨c', ?_, by simp [hposition, Copying.serve, hp],
      ⟨batch, by simp [hserved', Copying.serve], hlast⟩,
      fun h => balanced_take h hfull hserved' (haccepted' haccepted)⟩
    simp only [copyRound, hp, hflag, hserved, hfull, htransfer, hlast]
    rfl

variable (planId) in
lemma copyRound_breaks (h : Breaks config behaviour p) (hp : c.position = p) :
    ∃ c' e, copyRound config behaviour planId c = (c', some (.error e)) := by
  cases h with
  | cancelled hflag => exact ⟨c, .cancelled planId, by simp [copyRound, hp, hflag]⟩
  | @source i offset sent e hflag herror =>
    exact ⟨c, .networkError e, by simp [copyRound, hp, hflag, herror]⟩
  | @rejected i offset sent tries batch response hflag hserved hfull hdelivered hrejected =>
    obtain ⟨c', htransfer, -, -, -⟩ :=
      transfer_delivered (c := c.serve batch) (by simpa [Copying.serve, hp] using hdelivered)
    rw [hrejected, if_neg (by simp)] at htransfer
    refine ⟨c', .batchRejected c.batchNumber (response.error.getD "Unknown"), ?_⟩
    simp only [copyRound, hp, hflag, hserved, hfull, htransfer]
    rfl
  | @target i offset sent batch hflag hserved hfull hundeliverable =>
    obtain ⟨c', e, htransfer⟩ :=
      transfer_undeliverable (c := c.serve batch) (by simpa [Copying.serve, hp] using hundeliverable)
    refine ⟨c', e, ?_⟩
    simp only [copyRound, hp, hflag, hserved, hfull, htransfer]
    rfl

variable (config behaviour) in
lemma course_cases (p : Position) : (∃ q, Advances config behaviour p q) ∨
    Finishes config behaviour p ∨ Breaks config behaviour p := by
  obtain ⟨i, offset, sent⟩ := p
  rcases hflag : behaviour.cancelled i with _ | _
  · rcases hserved : behaviour.extract i offset with e | batch
    · exact .inr (.inr (.source hflag hserved))
    · by_cases hempty : batch.Empty
      · rcases hlast : batch.isLast with _ | _
        · exact .inl ⟨_, .skip hflag hserved hempty hlast⟩
        · exact .inr (.inl (.skip hflag hserved hempty hlast))
      · rcases delivered_or_undeliverable behaviour config.batchRetries sent batch with
          ⟨tries, response, hdelivered⟩ | hundeliverable
        · rcases haccepted : response.accepted with _ | _
          · exact .inr (.inr (.rejected hflag hserved hempty hdelivered haccepted))
          · rcases hlast : batch.isLast with _ | _
            · exact .inl ⟨_, .take hflag hserved hempty hlast hdelivered haccepted⟩
            · exact .inr (.inl (.take hflag hserved hempty hlast hdelivered haccepted))
        · exact .inr (.inr (.target hflag hserved hempty hundeliverable))
  · exact .inr (.inr (.cancelled hflag))

lemma copyLoop_none (h : copyRound config behaviour planId c = (c', none)) :
    copyLoop config behaviour planId (fuel + 1) c = copyLoop config behaviour planId fuel c' := by
  rw [copyLoop, h]

lemma copyLoop_end (h : copyRound config behaviour planId c = (c', some result)) :
    copyLoop config behaviour planId (fuel + 1) c = some (c', result) := by
  rw [copyLoop, h]

variable (c planId) in
lemma copyLoop_reached (h : ReflTransGen (Advances config behaviour) p q)
    (hp : c.position = p) : ∃ n c', c'.position = q ∧ ∀ fuel,
      copyLoop config behaviour planId (fuel + n) c = copyLoop config behaviour planId fuel c' := by
  induction h using ReflTransGen.head_induction_on generalizing c with
  | refl => exact ⟨0, c, hp, fun _ => rfl⟩
  | head hstep _ ih =>
    obtain ⟨c₁, hround, hposition, -⟩ := copyRound_advances planId hstep hp
    obtain ⟨n, c', hq, hrest⟩ := ih c₁ hposition
    refine ⟨n + 1, c', hq, fun fuel => ?_⟩
    rw [← Nat.add_assoc, copyLoop_none hround, hrest]

lemma copyLoop_some (h : copyLoop config behaviour planId fuel c = some (c', result)) :
    ∃ q,
      ReflTransGen (Advances config behaviour) c.position q ∧
      ((result = .ok () ∧ Finishes config behaviour q ∧ c'.position.iterations = q.iterations + 1 ∧
        (∃ batch, c'.served.getLast? = some batch ∧ batch.isLast = true) ∧ (c.Balanced → c'.Balanced)) ∨
      ∃ e, result = .error e ∧ Breaks config behaviour q) := by
  induction fuel generalizing c with
  | zero => cases h
  | succ fuel ih =>
    rcases course_cases config behaviour c.position with
      ⟨q, hstep⟩ | hfinishes | hbreaks
    · obtain ⟨c₁, hround, hposition, hbalanced⟩ := copyRound_advances planId hstep rfl
      rw [copyLoop_none hround] at h
      obtain ⟨r, hreached, hend⟩ := ih h
      rw [hposition] at hreached
      refine ⟨r, .head hstep hreached, hend.imp_left ?_⟩
      rintro ⟨hok, hfinishes, hiterations, hlast, hkeeps⟩
      exact ⟨hok, hfinishes, hiterations, hlast, fun hc => hkeeps (hbalanced hc)⟩
    · obtain ⟨c₁, hround, hiterations, hlast, hbalanced⟩ :=
        copyRound_finishes planId hfinishes rfl
      rw [copyLoop_end hround] at h
      cases h
      exact ⟨c.position, .refl, .inl ⟨rfl, hfinishes, hiterations, hlast, hbalanced⟩⟩
    · obtain ⟨c₁, e, hround⟩ := copyRound_breaks planId hbreaks rfl
      rw [copyLoop_end hround] at h
      cases h
      exact ⟨c.position, .refl, .inr ⟨e, rfl, hbreaks⟩⟩

lemma copyLoop_endless
    (h : ∀ q, ReflTransGen (Advances config behaviour) c.position q →
      ∃ r, Advances config behaviour q r) (fuel : ℕ) :
    copyLoop config behaviour planId fuel c = none := by
  induction fuel generalizing c with
  | zero => rfl
  | succ fuel ih =>
    obtain ⟨r, hstep⟩ := h _ .refl
    obtain ⟨c₁, hround, hposition, -⟩ := copyRound_advances planId hstep rfl
    rw [copyLoop_none hround]
    refine ih fun q hq => h q (.head hstep ?_)
    rwa [← hposition]

end Loop

/-! ### The executor -/

section Execute

variable {behaviour : Behaviour} {x : Executor} {plan : MigrationPlan} {fuel : ℕ} {c : Copying}

lemma AcceptedOnce.of_balanced (hbalanced : c.Balanced)
    (hlast : ∃ batch, c.served.getLast? = some batch ∧ batch.isLast = true) :
    AcceptedOnce c.served c.accepted := by
  refine ⟨hlast, hbalanced, ?_, ?_⟩
  all_goals
    rw [hbalanced]
    generalize c.served = served
    induction served with
    | nil => rfl
    | cons b served ih =>
      by_cases hempty : b.Empty
      · simp only [filter_cons, decide_not, hempty, flatMap_cons]
        simpa [hempty.1, hempty.2] using ih
      · simp only [filter_cons, decide_not, hempty, flatMap_cons]
        simpa using ih

lemma execute_without_client (h : ¬HasClients x plan) : ∃ outcome e,
    x.execute fuel behaviour plan = some outcome ∧ outcome.result = .error e ∧
      outcome.executor.router = x.router := by
  simp only [Executor.execute]
  by_cases hsource : plan.sourceShard ∈ (x.registerFlag plan.id).clients
  · have htarget : plan.targetShard ∉ (x.registerFlag plan.id).clients := fun ht => h ⟨hsource, ht⟩
    rw [if_neg (not_not.mpr hsource), if_pos htarget]
    exact ⟨_, _, rfl, rfl, rfl⟩
  · rw [if_pos hsource]
    exact ⟨_, _, rfl, rfl, rfl⟩

def Executor.started (x : Executor) (plan : MigrationPlan) : Executor :=
  (x.registerFlag plan.id).startDualWrite plan

variable (behaviour fuel) in
lemma execute_with_clients (h : HasClients x plan) : x.execute fuel behaviour plan =
    (copyLoop x.config behaviour plan.id fuel ((x.started plan).startCopying plan)).map
      fun end_ => (x.started plan).afterCopy behaviour plan end_.1 end_.2 := by
  have hsource : ¬plan.sourceShard ∉ (x.registerFlag plan.id).clients := not_not.mpr h.1
  have htarget : ¬plan.targetShard ∉ (x.registerFlag plan.id).clients := not_not.mpr h.2
  have hstarted : (x.registerFlag plan.id).startDualWrite plan = x.started plan := rfl
  have hconfig : (x.started plan).config = x.config := rfl
  simp only [Executor.execute]
  rw [if_neg hsource, if_neg htarget, hstarted, hconfig]
  cases copyLoop x.config behaviour plan.id fuel ((x.started plan).startCopying plan) <;> rfl

lemma verifyMigration_error_iff : (∃ e, verifyMigration behaviour plan = .error e) ↔
    StatesDiffer behaviour plan := by
  rcases hsource : behaviour.sourceState with e | source
  · simp [verifyMigration, StatesDiffer, hsource]
  · rcases htarget : behaviour.targetState with e | target
    · simp [verifyMigration, StatesDiffer, hsource, htarget]
    · by_cases h : target.nodeCount = 0 ∧ plan.progress.totalNodes > 0
      · simp [verifyMigration, StatesDiffer, hsource, htarget, h]
      · simp [verifyMigration, StatesDiffer, hsource, htarget, h]

/-- The plan as `verify_migration` sees it. -/
def verifiedPlan (plan : MigrationPlan) (c : Copying) : MigrationPlan :=
  { plan with state := .verifying, progress := c.progress }

lemma statesDiffer_verifiedPlan (hnodes : c.progress.totalNodes = plan.progress.totalNodes) :
    StatesDiffer behaviour (verifiedPlan plan c) ↔ StatesDiffer behaviour plan := by
  simp [StatesDiffer, verifiedPlan, hnodes]

variable (behaviour x plan c) in
/-- How `execute` ends after a copy: an error of the copy or the comparison leaves the router as it
is. -/
lemma afterCopy_cases (copied : Except MigrationError Unit) :
    (∃ e, copied = .error e ∧ (x.afterCopy behaviour plan c copied).result = .error e ∧
      (x.afterCopy behaviour plan c copied).executor.router = x.router) ∨
    (copied = .ok () ∧ behaviour.cancelled c.position.iterations = true ∧
      (x.afterCopy behaviour plan c copied).result = .error (.cancelled plan.id) ∧
      (x.afterCopy behaviour plan c copied).executor.router =
        x.router.unregisterMigration plan.labelsToMigrate) ∨
    (copied = .ok () ∧ behaviour.cancelled c.position.iterations = false ∧
      StatesDiffer behaviour (verifiedPlan plan c) ∧
      (∃ e, (x.afterCopy behaviour plan c copied).result = .error e) ∧
      (x.afterCopy behaviour plan c copied).executor.router = x.router) ∨
    (copied = .ok () ∧ behaviour.cancelled c.position.iterations = false ∧
      ¬StatesDiffer behaviour (verifiedPlan plan c) ∧
      ∃ stats, (x.afterCopy behaviour plan c copied).result = .ok stats) := by
  cases copied with
  | error e => exact .inl ⟨e, rfl, rfl, rfl⟩
  | ok =>
    rcases hflag : behaviour.cancelled c.position.iterations with _ | _
    · rcases hverify : verifyMigration behaviour (verifiedPlan plan c) with e | ⟨⟩
      · have hdiffer := verifyMigration_error_iff.mp ⟨e, hverify⟩
        simp only [verifiedPlan] at hverify
        simp only [Executor.afterCopy, hflag, hverify]
        exact .inr (.inr (.inl ⟨trivial, trivial, hdiffer, ⟨e, rfl⟩, rfl⟩))
      · have hsame : ¬StatesDiffer behaviour (verifiedPlan plan c) := by
          rw [← verifyMigration_error_iff, hverify]
          rintro ⟨e, he⟩
          cases he
        simp only [verifiedPlan] at hverify
        simp only [Executor.afterCopy, hflag, hverify]
        exact .inr (.inr (.inr ⟨trivial, trivial, hsame, _, rfl⟩))
    · simp only [Executor.afterCopy, hflag]
      exact .inr (.inl ⟨trivial, trivial, rfl, rfl⟩)

lemma totalNodes_transfer (behaviour : Behaviour) (batch : MigrationBatch) (retries : ℕ) (c : Copying) :
    (transfer behaviour batch retries c).1.progress.totalNodes = c.progress.totalNodes := by
  induction retries generalizing c with
  | zero =>
    rw [transfer.eq_def]
    split
    · split <;> rfl
    · rfl
  | succ retries ih =>
    rw [transfer.eq_def]
    split
    · split <;> rfl
    · exact ih c.send

lemma totalNodes_copyRound (config : MigrationConfig) (behaviour : Behaviour) (planId : ℕ) (c : Copying) :
    (copyRound config behaviour planId c).1.progress.totalNodes = c.progress.totalNodes := by
  simp only [copyRound]
  split
  · rfl
  · split
    · rfl
    next batch _ =>
      split
      · split <;> rfl
      · have htransfer := totalNodes_transfer behaviour batch config.batchRetries (c.serve batch)
        split
        next c' e heq => rwa [heq] at htransfer
        next c' heq =>
          rw [heq] at htransfer
          split
          · exact htransfer
          · exact htransfer

lemma totalNodes_copyLoop {config : MigrationConfig} {planId : ℕ}
    (h : copyLoop config behaviour planId fuel c = some (c', result)) :
    c'.progress.totalNodes = c.progress.totalNodes := by
  induction fuel generalizing c with
  | zero => cases h
  | succ fuel ih =>
    have hround := totalNodes_copyRound config behaviour planId c
    rw [copyLoop] at h
    split at h
    next c₁ r heq =>
      rw [heq] at hround
      cases h
      exact hround
    next c₁ heq =>
      rw [heq] at hround
      exact (ih h).trans hround

lemma unregistered_of_not_fails (hfails : ¬Fails behaviour x plan) {outcome : Outcome}
    {e : MigrationError} (h : x.execute fuel behaviour plan = some outcome)
    (herror : outcome.result = .error e) :
    ∀ label ∈ plan.labelsToMigrate, outcome.executor.router.isLabelMigrating label = false := by
  intro label hlabel
  have hlabels : plan.labelsToMigrate ≠ [] := ne_nil_of_mem hlabel
  by_cases hclients : HasClients x plan
  · rw [execute_with_clients behaviour fuel hclients] at h
    obtain ⟨⟨c, copied⟩, hloop, rfl⟩ := Option.map_eq_some_iff.mp h
    obtain ⟨p, hreached, hend⟩ := copyLoop_some hloop
    rcases afterCopy_cases behaviour (x.started plan) plan c copied with ⟨e', hcopied, -⟩ | ⟨-, -, -, hrouter⟩ |
      ⟨hcopied, hflag, hdiffer, -⟩ | ⟨-, -, -, stats, hok⟩
    · obtain ⟨hok, -⟩ | ⟨-, -, hbreaks⟩ := hend
      · rw [hok] at hcopied
        cases hcopied
      · exact absurd (.copying hclients hlabels hreached hbreaks) hfails
    · rw [hrouter]
      exact isLabelMigrating_unregister hlabel
    · obtain ⟨-, hfinishes, hiterations, -⟩ | ⟨e', hbroken, -⟩ := hend
      · rw [hiterations] at hflag
        rw [statesDiffer_verifiedPlan (totalNodes_copyLoop hloop)] at hdiffer
        exact absurd (.verifying hclients hlabels hreached hfinishes hflag hdiffer) hfails
      · rw [hbroken] at hcopied
        cases hcopied
    · rw [hok] at herror
      cases herror
  · obtain ⟨outcome', -, hexecute, -, hrouter⟩ := execute_without_client hclients
    rw [hexecute] at h
    cases h
    rw [hrouter, Bool.eq_false_iff]
    exact fun hregistered => hfails (.before hclients hlabel hregistered)

variable (plan) in
lemma copyLoop_of_reached {p : Position} (hreached : Reached x.config behaviour p)
    (hend : ¬∃ q, Advances x.config behaviour p q) : ∃ fuel c c' copied, c.position = p ∧
      copyRound x.config behaviour plan.id c = (c', some copied) ∧
      copyLoop x.config behaviour plan.id fuel ((x.started plan).startCopying plan) =
        some (c', copied) := by
  obtain ⟨n, c, hposition, hrest⟩ := copyLoop_reached ((x.started plan).startCopying plan) plan.id hreached rfl
  have hround : ∃ c' copied, copyRound x.config behaviour plan.id c = (c', some copied) := by
    rcases course_cases x.config behaviour p with hstep | hfinishes | hbreaks
    · exact absurd hstep hend
    · obtain ⟨c', hround, -⟩ := copyRound_finishes plan.id hfinishes hposition
      exact ⟨c', _, hround⟩
    · obtain ⟨c', e, hround⟩ := copyRound_breaks plan.id hbreaks hposition
      exact ⟨c', _, hround⟩
  obtain ⟨c', copied, hround⟩ := hround
  exact ⟨1 + n, c, c', copied, hposition, hround, (hrest 1).trans (copyLoop_end hround)⟩

lemma not_advances {p : Position} (hend : Finishes x.config behaviour p ∨ Breaks x.config behaviour p) :
    ¬∃ q, Advances x.config behaviour p q := by
  rintro ⟨q, hstep⟩
  let c : Copying := ⟨p, 0, ⟨0, 0, 0, 0⟩, ⟨0, 0, 0, 0⟩, 0, 0, [], []⟩
  obtain ⟨c₁, hround₁, -⟩ := copyRound_advances 0 (c := c) hstep rfl
  rcases hend with hfinishes | hbreaks
  · obtain ⟨c₂, hround₂, -⟩ := copyRound_finishes 0 (c := c) hfinishes rfl
    rw [hround₁] at hround₂
    cases hround₂
  · obtain ⟨c₂, e, hround₂⟩ := copyRound_breaks 0 (c := c) hbreaks rfl
    rw [hround₁] at hround₂
    cases hround₂

lemma ends_of_not_fails (hfails : ¬Fails behaviour x plan) (hlast : ReportsLast behaviour) :
    ∃ fuel outcome, x.execute fuel behaviour plan = some outcome := by
  by_cases hclients : HasClients x plan
  · have hends : ¬Endless x.config behaviour := fun hendless => hfails (.stalled hclients hlast hendless)
    simp only [Endless, not_forall] at hends
    obtain ⟨p, hreached, hend⟩ := hends
    obtain ⟨fuel, -, c', copied, -, -, hloop⟩ := copyLoop_of_reached plan hreached hend
    refine ⟨fuel, (x.started plan).afterCopy behaviour plan c' copied, ?_⟩
    rw [execute_with_clients behaviour fuel hclients, hloop]
    rfl
  · obtain ⟨outcome, -, hexecute, -⟩ := execute_without_client hclients
    exact ⟨0, outcome, hexecute⟩

lemma afterCopy_logs (copied : Except MigrationError Unit) :
    (x.afterCopy behaviour plan c copied).served = c.served ∧
      (x.afterCopy behaviour plan c copied).accepted = c.accepted := by
  cases copied with
  | error e => exact ⟨rfl, rfl⟩
  | ok =>
    simp only [Executor.afterCopy]
    split
    · exact ⟨rfl, rfl⟩
    · split <;> exact ⟨rfl, rfl⟩

lemma acceptedOnce_of_ok {outcome : Outcome} {stats : MigrationStats}
    (h : x.execute fuel behaviour plan = some outcome) (hok : outcome.result = .ok stats) :
    AcceptedOnce outcome.served outcome.accepted := by
  by_cases hclients : HasClients x plan
  · rw [execute_with_clients behaviour fuel hclients] at h
    obtain ⟨⟨c, copied⟩, hloop, rfl⟩ := Option.map_eq_some_iff.mp h
    rw [(afterCopy_logs copied).1, (afterCopy_logs copied).2]
    obtain ⟨p, -, ⟨-, -, -, hlast, hbalanced⟩ | ⟨e, rfl, -⟩⟩ := copyLoop_some hloop
    · exact .of_balanced (hbalanced rfl) hlast
    · cases hok
  · obtain ⟨outcome', e, hexecute, herror, -⟩ := execute_without_client hclients
    rw [hexecute] at h
    rw [← Option.some.inj h, herror] at hok
    cases hok

variable (x) in
lemma isLabelMigrating_started {label : String} (h : label ∈ plan.labelsToMigrate) :
    (x.started plan).router.isLabelMigrating label = true := isLabelMigrating_register h

lemma not_correct_of_fails (hfails : Fails behaviour x plan) : ¬Correct behaviour x plan := by
  intro hcorrect
  cases hfails with
  | @before hclients label hlabel hregistered =>
    obtain ⟨outcome, e, hexecute, herror, hrouter⟩ := execute_without_client hclients
    have hgone := (hcorrect.unregisters 0 outcome e hexecute herror label hlabel).1
    rw [hrouter, hregistered] at hgone
    cases hgone
  | @copying hclients hlabels p hreached hbreaks =>
    obtain ⟨label, hlabel⟩ := exists_mem_of_ne_nil _ hlabels
    obtain ⟨fuel, c, c', copied, hposition, hround, hloop⟩ :=
      copyLoop_of_reached plan hreached (not_advances (.inr hbreaks))
    obtain ⟨c₂, e, hround₂⟩ := copyRound_breaks plan.id hbreaks hposition
    rw [hround] at hround₂
    obtain ⟨rfl, hcopied⟩ := Prod.mk.inj hround₂
    cases hcopied
    have hexecute := execute_with_clients behaviour fuel hclients
    rw [hloop] at hexecute
    have hgone := (hcorrect.unregisters fuel _ e hexecute rfl label hlabel).1
    have hstays := isLabelMigrating_started x hlabel
    exact absurd (hstays.symm.trans hgone) (by decide)
  | @verifying hclients hlabels p hreached hfinishes hflag hdiffer =>
    obtain ⟨label, hlabel⟩ := exists_mem_of_ne_nil _ hlabels
    obtain ⟨fuel, c, c', copied, hposition, hround, hloop⟩ :=
      copyLoop_of_reached plan hreached (not_advances (.inl hfinishes))
    obtain ⟨c₂, hround₂, hiterations, -⟩ := copyRound_finishes plan.id hfinishes hposition
    rw [hround] at hround₂
    obtain ⟨rfl, hcopied⟩ := Prod.mk.inj hround₂
    cases hcopied
    have hexecute := execute_with_clients behaviour fuel hclients
    rw [hloop] at hexecute
    rw [← hiterations] at hflag
    have hstays := isLabelMigrating_started x hlabel
    rcases afterCopy_cases behaviour (x.started plan) plan c' (.ok ()) with ⟨e, he, -⟩ | ⟨-, hcancelled, -⟩ | ⟨-, -, -, ⟨e, herror⟩, hrouter⟩ | ⟨-, -, hsame, -⟩
    · cases he
    · rw [hcancelled] at hflag
      cases hflag
    · have hgone := (hcorrect.unregisters fuel _ e hexecute herror label hlabel).1
      change ((x.started plan).afterCopy behaviour plan c' (.ok ())).executor.router.isLabelMigrating
        label = false at hgone
      rw [hrouter, hstays] at hgone
      cases hgone
    · exact hsame ((statesDiffer_verifiedPlan (totalNodes_copyLoop hloop)).mpr hdiffer)
  | stalled hclients hlast hendless =>
    obtain ⟨fuel, outcome, hexecute⟩ := hcorrect.ends hlast
    have hnone : copyLoop x.config behaviour plan.id fuel ((x.started plan).startCopying plan) = none := by
      refine copyLoop_endless (fun q hq => hendless q ?_) fuel
      exact hq
    rw [execute_with_clients behaviour fuel hclients, hnone] at hexecute
    cases hexecute

end Execute

section Stalls

variable {config : MigrationConfig} {behaviour : Behaviour} {n : ℕ} {p q : Position}

lemma Advances.iterations (h : Advances config behaviour p q) :
    q.iterations = p.iterations + 1 := by
  cases h <;> rfl

variable (hlast : LastFrom behaviour n)

include hlast

lemma Advances.offset_lt (hp : p.offset < 2 ^ 64) (h : Advances config behaviour p q) :
    p.offset < n := by
  by_contra hge
  cases h with
  | skip _ hserved _ hnot =>
    have hyes := hlast _ _ _ (not_lt.mp hge) hp hserved
    rw [hnot] at hyes
    cases hyes
  | take _ hserved _ hnot =>
    have hyes := hlast _ _ _ (not_lt.mp hge) hp hserved
    rw [hnot] at hyes
    cases hyes

variable (hwrap : n + config.batchSize ≤ 2 ^ 64)

include hwrap

lemma Advances.offset_cases (hp : p.offset < 2 ^ 64) (h : Advances config behaviour p q) :
    (q.offset = p.offset ∧ ∃ batch, behaviour.extract p.iterations p.offset = .ok batch ∧ batch.Empty ∧
      batch.isLast = false) ∨ (q.offset = p.offset + config.batchSize ∧ q.offset < 2 ^ 64) := by
  have hlt := h.offset_lt hlast hp
  cases h with
  | skip _ hserved hempty hnot => exact .inl ⟨rfl, _, hserved, hempty, hnot⟩
  | @take i offset =>
    have hsum : add64 offset config.batchSize = offset + config.batchSize :=
      Nat.mod_eq_of_lt (by simp only at hlt; omega)
    exact .inr ⟨hsum, by simp only [hsum] at *; omega⟩

lemma offset_mono (hp : p.offset < 2 ^ 64) (h : ReflTransGen (Advances config behaviour) p q) :
    p.offset ≤ q.offset ∧ q.offset < 2 ^ 64 := by
  induction h with
  | refl => exact ⟨le_rfl, hp⟩
  | tail _ hstep ih =>
    rcases hstep.offset_cases hlast hwrap ih.2 with ⟨heq, -⟩ | ⟨heq, hlt⟩
    · rw [heq]
      exact ih
    · exact ⟨by omega, hlt⟩

/-- An endless copy comes to a position from which the offset stays. -/
lemma exists_offset_stays (hendless : Endless config behaviour) :
    ∃ q, Reached config behaviour q ∧ q.offset < 2 ^ 64 ∧
      ∀ r, ReflTransGen (Advances config behaviour) q r → r.offset = q.offset := by
  -- by induction on the distance to the last offset
  have hstays : ∀ m p, Reached config behaviour p → p.offset < 2 ^ 64 → n - p.offset ≤ m →
      ∃ q, Reached config behaviour q ∧ q.offset < 2 ^ 64 ∧
        ∀ r, ReflTransGen (Advances config behaviour) q r → r.offset = q.offset := by
    intro m
    induction m with
    | zero =>
      intro p hp hlt hm
      obtain ⟨q, hstep⟩ := hendless p hp
      have := hstep.offset_lt hlast hlt
      omega
    | succ m ih =>
      intro p hp hlt hm
      by_cases hall : ∀ r, ReflTransGen (Advances config behaviour) p r → r.offset = p.offset
      · exact ⟨p, hp, hlt, hall⟩
      · simp only [not_forall] at hall
        obtain ⟨r, hr, hne⟩ := hall
        obtain ⟨hle, hlt'⟩ := offset_mono hlast hwrap hlt hr
        exact ih r (hp.trans hr) hlt' (by omega)
  exact hstays n ⟨0, 0, 0⟩ .refl (by decide) (by omega)

omit hwrap

omit hlast

end Stalls

/-! ### Two behaviours of the clients -/

def emptyBatch (isLast : Bool) : MigrationBatch := ⟨1, 0, isLast, [], [], 0⟩

/-- An empty batch at the first offset, and the last batch from the next one on. -/
def gapBehaviour : Behaviour where
  cancelled _ := false
  cancelledStays _ h := h
  extract _ offset := .ok (emptyBatch (1000 ≤ offset))
  receive _ batch := .ok ⟨true, batch.nodes.length, batch.edges.length, none⟩
  sourceState := .ok ⟨1⟩
  targetState := .ok ⟨1⟩

def lostBehaviour : Behaviour :=
  { gapBehaviour with extract := fun _ _ => .error (.shardUnavailable 0) }

def onePlan : MigrationPlan := ⟨1, 0, 1, ["Person"], .planned, ⟨0, 0, 0, 0⟩⟩

def oneExecutor : Executor := ⟨⟨1000, 3⟩, [0, 1], ⟨[]⟩, [], 0, 0⟩

lemma reached_gapBehaviour {p : Position} (h : Reached oneExecutor.config gapBehaviour p) :
    p.offset = 0 := by
  induction h with
  | refl => rfl
  | tail _ hstep ih =>
    cases hstep with
    | skip => exact ih
    | take _ hserved hfull =>
      cases hserved
      exact absurd ⟨rfl, rfl⟩ hfull

end Aletheia.ShardMigration
