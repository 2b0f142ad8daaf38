import Aletheia.WalStripes

/-!
# Recovery yields a prefix of the commit order

The entries are placed in LSN order, so what has reached the segments is an initial piece of the log
as long as no drain takes an entry while it leaves an older one behind. A drain leaves an entry
behind when it is placed on a stripe the drain has passed; that is harmless until another one is
placed on a stripe still ahead.
-/

namespace Aletheia.WalSystem

open List Machine Option

variable {D C : Type} {a : Action D}

/-- The transactions recovery finds are the first ones of the commit order. -/
def RecoversPrefix (s : WalSystem D C) : Prop :=
  ∃ survivors, survivors <+: s.committed ∧
    resolveTransactionFrames s.surviving = survivors.flatMap (LoggedTransaction.replayed C)

/-- No entry is placed ahead of a drain that has left one behind, and no flush fails. -/
def Gapless (s : WalSystem D C) : Action D → Prop
  | .append _ =>
    match s.placement, s.flusher with
    | some p, .draining next _ => next ≤ p.stripe → ∀ ring ∈ s.stripes.take next, ring.isEmpty
    | _, _ => True
  | .flush ok => ok
  | _ => True

instance (s : WalSystem D C) (a : Action D) : Decidable (s.Gapless a) := by
  unfold Gapless
  split
  · split <;> infer_instance
  · infer_instance
  · infer_instance

/-- The LSN below which everything placed so far lies. -/
def cursor (s : WalSystem D C) : ℕ :=
  match s.placement with
  | some p => p.firstLsn + p.placed
  | none => s.nextLsn

/-- How many stripes the drain in progress has passed. -/
def passed (s : WalSystem D C) : ℕ :=
  match s.flusher with
  | .draining next _ => next
  | _ => s.stripes.length

/-- `log` are the entries placed so far, in order. -/
structure Inv (log : List (WalEntry D C)) (s : WalSystem D C) : Prop where
  sorted : log.Pairwise fun a b => a.lsn < b.lsn
  below : ∀ e ∈ log, e.lsn < s.cursor
  room : ∀ p ∈ s.placement, p.placed < (p.transaction.frame C).length ∧
    p.firstLsn + (p.transaction.frame C).length ≤ s.nextLsn
  /-- every entry is in the segments, with the flusher or on a ring -/
  kept : (s.segments ++ (s.flusher.held ++ s.stripes.flatten)).Perm log
  /-- what is written is older than what is not -/
  written : ∀ a ∈ s.segments, ∀ b ∈ s.flusher.held ++ s.stripes.flatten, a.lsn < b.lsn
  /-- what a drain leaves behind is newer than what it takes -/
  behind : ∀ a ∈ s.flusher.held ++ (s.stripes.drop s.passed).flatten,
    ∀ b ∈ (s.stripes.take s.passed).flatten, a.lsn < b.lsn
  resolved : (scanFrames log).resolved = s.committed.flatMap (LoggedTransaction.replayed C)
  frame : ∀ p ∈ s.placement, p.transaction.Open p.firstLsn p.placed (scanFrames log)
  initial : ∀ n, ∃ survivors, survivors <+: s.committed ∧
    resolveTransactionFrames (log.take n) = survivors.flatMap (LoggedTransaction.replayed C)

variable {log : List (WalEntry D C)} {s s' : WalSystem D C}

lemma sortByLsn_perm (entries : List (WalEntry D C)) : (sortByLsn entries).Perm entries :=
  perm_insertionSort _ entries

lemma sortByLsn_sorted (entries : List (WalEntry D C)) :
    (sortByLsn entries).Pairwise fun a b => a.lsn ≤ b.lsn :=
  haveI : IsTrans (WalEntry D C) fun a b => a.lsn ≤ b.lsn := ⟨fun _ _ _ h1 h2 => h1.trans h2⟩
  haveI : Std.Total fun a b : WalEntry D C => a.lsn ≤ b.lsn := ⟨fun a b => le_total a.lsn b.lsn⟩
  pairwise_insertionSort _ entries

lemma Inv.surviving_eq (h : Inv log s) : ∃ n, s.surviving = log.take n := by
  set rest := sortByLsn (s.flusher.held ++ s.stripes.flatten) with hrest
  have hperm : (s.surviving ++ rest).Perm log :=
    ((sortByLsn_perm _).append (sortByLsn_perm _)).trans h.kept
  have hsorted : (s.surviving ++ rest).Pairwise fun a b => a.lsn ≤ b.lsn := by
    refine pairwise_append.mpr ⟨sortByLsn_sorted _, sortByLsn_sorted _, ?_⟩
    intro a ha b hb
    exact (h.written a ((sortByLsn_perm _).mem_iff.mp ha) b ((sortByLsn_perm _).mem_iff.mp hb)).le
  -- two entries of the log with one LSN are the same entry
  have hnodup : (log.map WalEntry.lsn).Nodup :=
    pairwise_map.mpr (h.sorted.imp fun hlt => hlt.ne)
  have hlog : s.surviving ++ rest = log := by
    refine hperm.eq_of_pairwise ?_ hsorted (h.sorted.imp fun hlt => hlt.le)
    intro a b ha hb hab hba
    exact inj_on_of_nodup_map hnodup (hperm.mem_iff.mp ha) hb (le_antisymm hab hba)
  exact ⟨s.surviving.length, by rw [← hlog, take_left]⟩

lemma Inv.recoversPrefix (h : Inv log s) : s.RecoversPrefix := by
  obtain ⟨n, hn⟩ := h.surviving_eq
  unfold RecoversPrefix
  rw [hn]
  exact h.initial n

lemma split_at_ring {α : Type} {l : List α} {k : ℕ} {a : α} (h : l[k]? = some a) :
    ∃ l₁ l₂, l₁.length = k ∧ l = l₁ ++ a :: l₂ ∧ ∀ b, l.set k b = l₁ ++ b :: l₂ := by
  obtain ⟨hk, ha⟩ := List.getElem?_eq_some_iff.mp h
  have hlen : (l.take k).length = k := length_take_of_le hk.le
  refine ⟨l.take k, l.drop (k + 1), hlen, ?_, ?_⟩
  · rw [← ha, getElem_cons_drop, take_append_drop]
  · intro b
    rw [set_eq_take_append_cons_drop, if_pos hk]

lemma flatten_set_perm {α : Type} {l : List (List α)} {k : ℕ} {ring : List α}
    (h : l[k]? = some ring) (r : List α) : (l.set k (ring ++ r)).flatten.Perm (l.flatten ++ r) := by
  obtain ⟨l₁, l₂, _, hl, hset⟩ := split_at_ring h
  rw [hset, hl]
  simp only [flatten_append, flatten_cons, append_assoc]
  exact List.Perm.append_left _ (List.Perm.append_left _ perm_append_comm)

/-- An entry placed at the cursor of the log; where it lands and what it does to the frame is up to
the caller. -/
lemma Inv.place {e : WalEntry D C} {k : ℕ} {ring : List (WalEntry D C)} (h : Inv log s)
    (hring : s.stripes[k]? = some ring) (hlsn : e.lsn = s.cursor)
    (hgapless : s.passed ≤ k → ∀ ring ∈ s.stripes.take s.passed, ring = [])
    (hstripes : s'.stripes = s.stripes.set k (ring ++ [e])) (hflusher : s'.flusher = s.flusher)
    (hsegments : s'.segments = s.segments) (hcursor : e.lsn < s'.cursor)
    (hroom : ∀ p ∈ s'.placement, p.placed < (p.transaction.frame C).length ∧
      p.firstLsn + (p.transaction.frame C).length ≤ s'.nextLsn)
    (hresolved : (scanFrames (log ++ [e])).resolved =
      s'.committed.flatMap (LoggedTransaction.replayed C))
    (hframe : ∀ p ∈ s'.placement, p.transaction.Open p.firstLsn p.placed (scanFrames (log ++ [e])))
    (hcommitted : s.committed <+: s'.committed) : Inv (log ++ [e]) s' := by
  have hnew : ∀ a ∈ log, a.lsn < e.lsn := fun a ha => hlsn ▸ h.below a ha
  have hmem : ∀ a ∈ s.segments ++ (s.flusher.held ++ s.stripes.flatten), a ∈ log :=
    fun a ha => h.kept.mem_iff.mp ha
  have hpassed : s'.passed = s.passed := by
    unfold passed
    rw [hflusher, hstripes, length_set]
  have hflat : s'.stripes.flatten.Perm (s.stripes.flatten ++ [e]) :=
    hstripes ▸ flatten_set_perm hring [e]
  constructor
  · exact pairwise_append.mpr ⟨h.sorted, pairwise_singleton _ _,
      fun a ha b hb => (mem_singleton.mp hb) ▸ hnew a ha⟩
  · intro a ha
    rcases mem_append.mp ha with ha | ha
    · exact (hnew a ha).trans hcursor
    · exact mem_singleton.mp ha ▸ hcursor
  · exact hroom
  · rw [hsegments, hflusher]
    have hassoc : (s.segments ++ (s.flusher.held ++ (s.stripes.flatten ++ [e]))) =
        (s.segments ++ (s.flusher.held ++ s.stripes.flatten)) ++ [e] := by
      simp only [append_assoc]
    refine (List.Perm.append_left _ (List.Perm.append_left _ hflat)).trans ?_
    rw [hassoc]
    exact h.kept.append_right _
  · intro a ha b hb
    rw [hsegments] at ha
    rw [hflusher, mem_append, hflat.mem_iff, ← mem_append, ← append_assoc, mem_append] at hb
    rcases hb with hb | hb
    · exact h.written a ha b hb
    · rw [mem_singleton.mp hb]
      exact hnew a (hmem a (mem_append_left _ ha))
  · rw [hpassed, hflusher, hstripes]
    intro a ha b hb
    rcases Nat.lt_or_ge k s.passed with hk | hk
    · -- on a stripe the drain has passed
      have htake : (s.stripes.take s.passed)[k]? = some ring := by
        rw [List.getElem?_take_of_lt hk, hring]
      rw [drop_set_of_lt hk] at ha
      rw [take_set, (flatten_set_perm htake [e]).mem_iff, mem_append] at hb
      rcases hb with hb | hb
      · exact h.behind a ha b hb
      · rw [mem_singleton.mp hb]
        refine hnew a (hmem a (mem_append_right _ ?_))
        rcases mem_append.mp ha with ha | ha
        · exact mem_append_left _ ha
        · obtain ⟨r, hr, ha⟩ := mem_flatten.mp ha
          exact mem_append_right _ (mem_flatten.mpr ⟨r, mem_of_mem_drop hr, ha⟩)
    · -- ahead of the drain, which has left nothing behind
      rw [take_set_of_le hk] at hb
      obtain ⟨r, hr, hb⟩ := mem_flatten.mp hb
      rw [hgapless hk r hr] at hb
      exact absurd hb not_mem_nil
  · exact hresolved
  · exact hframe
  · intro n
    rcases Nat.lt_or_ge log.length n with hn | hn
    · refine ⟨s'.committed, prefix_rfl, ?_⟩
      rw [take_of_length_le (by simp; omega)]
      exact hresolved
    · obtain ⟨survivors, hpre, heq⟩ := h.initial n
      exact ⟨survivors, hpre.trans hcommitted, by rw [take_append_of_le_length hn, heq]⟩

lemma Inv.append {now : Timestamp} (h : Inv log s) (hgapless : s.Gapless (.append now))
    (hs : s.append now = some s') : ∃ log', Inv log' s' := by
  simp only [WalSystem.append, bind_eq_bind, bind_eq_some_iff] at hs
  obtain ⟨p, hp, ring, hring, op, hop, hs⟩ := hs
  have hlsn : (p.entry now op).lsn = s.cursor := by simp [cursor, hp, Placement.entry]
  obtain ⟨hplaced, hfits⟩ := h.room p hp
  have hopen := h.frame p hp
  have hahead : s.passed ≤ p.stripe → ∀ ring ∈ s.stripes.take s.passed, ring = [] := by
    obtain ⟨hlt, _⟩ := List.getElem?_eq_some_iff.mp hring
    intro hle r hr
    cases hfl : s.flusher with
    | draining next entries =>
      have hpassed : s.passed = next := by simp [passed, hfl]
      simp only [Gapless, hp, hfl] at hgapless
      rw [hpassed] at hle hr
      exact isEmpty_iff.mp (hgapless hle r hr)
    | idle => simp only [passed, hfl] at hle; omega
    | flushing entries => simp only [passed, hfl] at hle; omega
  split_ifs at hs with hcap hlast
  · -- the marker is placed
    cases hs
    have hlen : p.placed = p.transaction.writes.length + 1 := by
      rw [LoggedTransaction.length_frame] at hlast
      omega
    refine ⟨_, h.place hring hlsn hahead rfl rfl rfl ?_ (by simp) ?_ (by simp) (prefix_append _ _)⟩
    · simp only [cursor, Placement.entry]
      omega
    · rw [scanFrames_snoc, LoggedTransaction.Open.last (hlen ▸ hopen) (by rw [← hlen]; rfl)
        (hlen ▸ hop) rfl, h.resolved, flatMap_append, flatMap_singleton]
  · -- an entry before it
    cases hs
    have hlen : p.placed < p.transaction.writes.length + 1 := by
      rw [LoggedTransaction.length_frame] at hlast hplaced
      omega
    obtain ⟨hopen', hresolved⟩ := hopen.next (e := p.entry now op) hlen rfl hop rfl
    refine ⟨_, h.place hring hlsn hahead rfl rfl rfl ?_ ?_ ?_ ?_ prefix_rfl⟩
    · simp only [cursor, Placement.entry]
      omega
    · rintro q hq
      cases hq
      exact ⟨lt_of_le_of_ne hplaced hlast, hfits⟩
    · rw [scanFrames_snoc, hresolved, h.resolved]
    · rintro q hq
      cases hq
      rw [scanFrames_snoc]
      exact hopen'

/-- The steps of the flusher before it writes only move entries from the rings to its own list. -/
lemma Inv.drain {flusher : Flusher D C} {stripes : List (List (WalEntry D C))} (h : Inv log s)
    (hs : s' = { s with flusher := flusher, stripes := stripes })
    (hmoved : (flusher.held ++ stripes.flatten).Perm (s.flusher.held ++ s.stripes.flatten))
    (hbehind : ∀ a ∈ s'.flusher.held ++ (s'.stripes.drop s'.passed).flatten,
      ∀ b ∈ (s'.stripes.take s'.passed).flatten, a.lsn < b.lsn) : Inv log s' := by
  subst hs
  exact { h with
    kept := (List.Perm.append_left _ hmoved).trans h.kept
    written := fun a ha b hb => h.written a ha b (hmoved.mem_iff.mp hb)
    behind := hbehind }

lemma Inv.startDrain (h : Inv log s) (hs : s.startDrain = some s') : Inv log s' := by
  unfold WalSystem.startDrain at hs
  split at hs
  next hfl =>
    split_ifs at hs
    refine h.drain (some.inj hs).symm (by rw [hfl]; rfl) ?_
    cases hs
    intro a _ b hb
    exact absurd hb (by simp [passed])
  next => cases hs

lemma Inv.drainStripe (h : Inv log s) (hs : s.drainStripe = some s') : Inv log s' := by
  unfold WalSystem.drainStripe at hs
  split at hs
  next next entries hfl =>
    have hpassed : s.passed = next := by simp [passed, hfl]
    have hbehind := h.behind
    rw [hfl, hpassed] at hbehind
    split at hs
    next ring hring =>
      obtain ⟨l₁, l₂, hlen, hl, hset⟩ := split_at_ring hring
      refine h.drain (some.inj hs).symm ?_ ?_
      · rw [hfl, hset, hl]
        simp only [Flusher.held, flatten_append, flatten_cons, append_assoc, nil_append]
        refine List.Perm.append_left _ ?_
        rw [← append_assoc, ← append_assoc]
        exact perm_append_comm.append_right _
      · cases hs
        subst hlen
        intro a ha b hb
        have hdrop : (l₁ ++ [] :: l₂).drop (l₁.length + 1) = l₂ := by simp [drop_append]
        have htake : (l₁ ++ [] :: l₂).take (l₁.length + 1) = l₁ ++ [[]] := by
          simp [take_append, take_of_length_le]
        simp only [passed, Flusher.held, hset, hdrop, htake, append_assoc,
          flatten_append, flatten_singleton, append_nil] at ha hb
        refine hbehind a ?_ b ?_
        · rw [hl, drop_left, flatten_cons]
          exact ha
        · rw [hl, take_left]
          exact hb
    next hnone =>
      have hlen : s.stripes.length ≤ next := List.getElem?_eq_none_iff.mp hnone
      refine h.drain (some.inj hs).symm ?_ ?_
      · rw [hfl]
        exact (sortByLsn_perm entries).append_right _
      · cases hs
        intro a ha b hb
        simp only [passed, Flusher.held, drop_length, take_length, flatten_nil, append_nil] at ha hb
        refine hbehind a ?_ b ?_
        · exact mem_append_left _ ((sortByLsn_perm entries).mem_iff.mp ha)
        · rwa [take_of_length_le hlen]
  next => cases hs

lemma Inv.flush {ok : Bool} (h : Inv log s) (hok : ok = true) (hs : s.flush ok = some s') :
    Inv log s' := by
  unfold WalSystem.flush at hs
  split at hs
  next entries hfl =>
    rw [if_pos hok] at hs
    cases hs
    have hkept := h.kept
    have hwritten := h.written
    have hbehind := h.behind
    rw [hfl] at hkept hwritten hbehind
    simp only [passed, hfl, Flusher.held, drop_length, take_length, flatten_nil,
      append_nil] at hbehind
    exact { h with
      kept := by rwa [append_assoc]
      written := by
        intro a ha b hb
        rcases mem_append.mp ha with ha | ha
        · exact hwritten a ha b (mem_append_right _ hb)
        · exact hbehind a ha b hb
      behind := by
        intro a ha
        simp [passed, Flusher.held] at ha }
  next => cases hs

lemma Inv.begin {stripe : ℕ} {t : LoggedTransaction D} (h : Inv log s)
    (hs : s.begin stripe t = some s') : Inv log s' := by
  unfold WalSystem.begin at hs
  split_ifs at hs with hfree
  cases hs
  have hnone : s.placement = none := isNone_iff_eq_none.mp hfree.1
  have hcursor : s.cursor = s.nextLsn := by simp [cursor, hnone]
  exact { h with
    below := fun e he => hcursor ▸ h.below e he
    room := by
      rintro p hp
      cases hp
      exact ⟨by simp, le_rfl⟩
    frame := by
      rintro p hp hpos
      cases hp
      exact absurd hpos (lt_irrefl 0) }

lemma Inv.giveUp (h : Inv log s) : Inv log { s with placement := none } := by
  have hle : s.cursor ≤ s.nextLsn := by
    unfold cursor
    split
    next p hp =>
      have := h.room p hp
      omega
    next => exact le_rfl
  exact { h with
    below := fun e he => (h.below e he).trans_le hle
    room := by simp
    frame := by simp }

lemma inv_step (h : ∃ log, Inv log s) (hgapless : s.Gapless a) (hs : s.step a = some s') :
    ∃ log, Inv log s' := by
  obtain ⟨log, h⟩ := h
  cases a with
  | «begin» stripe t => exact ⟨log, h.begin hs⟩
  | append now => exact h.append hgapless hs
  | giveUp =>
    simp only [step] at hs
    split_ifs at hs
    cases hs
    exact ⟨log, h.giveUp⟩
  | startDrain => exact ⟨log, h.startDrain hs⟩
  | drainStripe => exact ⟨log, h.drainStripe hs⟩
  | flush ok => exact ⟨log, h.flush hgapless hs⟩

lemma inv_init (groupCommit : Bool) (stripeCount stripeCapacity : ℕ) :
    Inv [] (init groupCommit stripeCount stripeCapacity : WalSystem D C) where
  sorted := List.Pairwise.nil
  below := by simp
  room := by simp [init]
  kept := by simp [init, Flusher.held]
  written := by simp [init]
  behind := by simp [init, passed, Flusher.held]
  resolved := rfl
  frame := by simp [init]
  initial n := ⟨[], by simp, by simp [resolveTransactionFrames, scanFrames]⟩

lemma inv_run {groupCommit : Bool} {stripeCount stripeCapacity : ℕ} {as : List (Action D)}
    (hgapless : Machine.Along step Gapless
      (init groupCommit stripeCount stripeCapacity : WalSystem D C) as)
    (hrun : run step (init groupCommit stripeCount stripeCapacity) as = some s) :
    ∃ log, Inv log s := by
  have hstep : ∀ (s : WalSystem D C) (a : Action D) (s' : WalSystem D C), (∃ log, Inv log s) →
      s.Gapless a → s.step a = some s' → ∃ log, Inv log s' := fun _ _ _ => inv_step
  have h := invariant_run hstep ⟨[], inv_init groupCommit stripeCount stripeCapacity⟩ hgapless hrun
  exact h

/-- **Recovery yields a prefix of the commit order.** -/
theorem recovers_commit_prefix (groupCommit : Bool) (stripeCount stripeCapacity : ℕ)
    (as : List (Action D))
    (hgapless : Machine.Along step Gapless
      (init groupCommit stripeCount stripeCapacity : WalSystem D C) as)
    (hrun : Machine.run step (init groupCommit stripeCount stripeCapacity) as = some s) :
    s.RecoversPrefix := by
  obtain ⟨log, h⟩ := inv_run hgapless hrun
  exact h.recoversPrefix

/-- What the membership lock gives: no commit is inside `append_batch` during a drain. -/
def Apart (s : WalSystem D C) : Prop :=
  s.groupCommit = true ∧ (s.placement.isSome → s.flusher.isDraining = false)

def FlushesOk (_ : WalSystem D C) : Action D → Prop
  | .flush ok => ok
  | _ => True

instance (s : WalSystem D C) (a : Action D) : Decidable (s.FlushesOk a) := by
  cases a <;> unfold FlushesOk <;> infer_instance

lemma apart_step (h : s.Apart) (hs : s.step a = some s') : s'.Apart := by
  obtain ⟨hgroup, hapart⟩ := h
  cases a with
  | «begin» stripe t =>
    simp only [step, WalSystem.begin, hgroup] at hs
    split_ifs at hs with hfree
    cases hs
    exact ⟨rfl, fun _ => by simpa using hfree.2.2⟩
  | append now =>
    simp only [step, WalSystem.append, bind_eq_bind, bind_eq_some_iff] at hs
    obtain ⟨p, hp, ring, hring, op, hop, hs⟩ := hs
    have hnot := hapart (by rw [hp]; rfl)
    split_ifs at hs <;> cases hs <;> exact ⟨hgroup, fun _ => hnot⟩
  | giveUp =>
    simp only [step] at hs
    split_ifs at hs
    cases hs
    exact ⟨hgroup, fun h => absurd h (by simp)⟩
  | startDrain =>
    simp only [step, WalSystem.startDrain, commitHoldsMembership, hgroup, Bool.true_and] at hs
    split at hs
    · split_ifs at hs with hnone
      cases hs
      exact ⟨rfl, fun h => absurd h hnone⟩
    · cases hs
  | drainStripe =>
    simp only [step, WalSystem.drainStripe] at hs
    split at hs
    next hfl =>
      have hnone : ¬ s.placement.isSome := fun h => by
        have := hapart h
        rw [hfl] at this
        exact absurd this (by simp [Flusher.isDraining])
      split at hs <;> cases hs <;>
        exact ⟨hgroup, fun h => absurd h hnone⟩
    next => cases hs
  | flush ok =>
    simp only [step, WalSystem.flush] at hs
    split at hs
    · split_ifs at hs <;> cases hs <;> exact ⟨hgroup, fun _ => rfl⟩
    · cases hs

lemma gapless_of_apart (h : s.Apart) (hok : s.FlushesOk a) : s.Gapless a := by
  cases a with
  | append now =>
    unfold Gapless
    cases hp : s.placement with
    | none => trivial
    | some p =>
      have hnot := h.2 (by rw [hp]; rfl)
      cases hfl : s.flusher with
      | draining next entries => rw [hfl] at hnot; exact absurd hnot (by simp [Flusher.isDraining])
      | idle => trivial
      | flushing entries => trivial
  | flush ok => exact hok
  | _ => trivial

lemma recoversPrefix_iff : s.RecoversPrefix ↔ ∃ n < s.committed.length + 1,
    resolveTransactionFrames s.surviving =
      (s.committed.take n).flatMap (LoggedTransaction.replayed C) := by
  constructor
  · rintro ⟨survivors, hpre, heq⟩
    refine ⟨survivors.length, Nat.lt_succ_of_le hpre.length_le, ?_⟩
    rwa [← prefix_iff_eq_take.mp hpre]
  · rintro ⟨n, _, heq⟩
    exact ⟨_, take_prefix n _, heq⟩

def commitOne (stripe : ℕ) (write : ℕ) : List (Action ℕ) :=
  .begin stripe ⟨⟨write⟩, [write], ⟨write, 0⟩, by simp, by simp [defaultMaxOperations]⟩ ::
    List.replicate 3 (.append ⟨0, 0⟩)

/-- Without a group-commit coordinator: the drain passes the first stripe, then one transaction
commits there and a second one on the stripe still ahead. -/
def missedCommit : List (Action ℕ) :=
  List.flatten
    [[.startDrain, .drainStripe], commitOne 0 1, commitOne 1 2,
      [.drainStripe, .drainStripe, .flush true]]

theorem recovery_skips_commit : ∃ s : WalSystem ℕ Unit,
    Machine.run step (init false 2 8) missedCommit = some s ∧ ¬ s.RecoversPrefix := by
  have h : ∃ s ∈ run step (init false 2 8 : WalSystem ℕ Unit) missedCommit,
      ¬ ∃ n < s.committed.length + 1, resolveTransactionFrames s.surviving =
        (s.committed.take n).flatMap (LoggedTransaction.replayed Unit) := by
    decide +kernel
  obtain ⟨s, hs, hne⟩ := h
  exact ⟨s, hs, fun hpre => hne (recoversPrefix_iff.mp hpre)⟩

def drainedCommits : List (Action ℕ) :=
  List.flatten
    [commitOne 0 1, commitOne 1 2,
      [.startDrain, .drainStripe, .drainStripe, .drainStripe, .flush true]]

theorem recovers_drained_commits : ∃ s : WalSystem ℕ Unit,
    Machine.run step (init false 2 8) drainedCommits = some s ∧ s.committed.length = 2 ∧
      s.RecoversPrefix := by
  have h : ∃ s ∈ run step (init false 2 8 : WalSystem ℕ Unit) drainedCommits,
      s.committed.length = 2 := by
    decide +kernel
  obtain ⟨s, hs, hlen⟩ := h
  exact ⟨s, hs, hlen, recovers_commit_prefix false 2 8 drainedCommits (by decide +kernel) hs⟩

end Aletheia.WalSystem
