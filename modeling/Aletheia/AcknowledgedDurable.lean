import Aletheia.EpochWal

/-!
# An acknowledged commit is durable

From the moment a transaction is registered, each of its entries is durable, or can still be found:
on a ring, with the flusher or with an explicit flush; or it is lost and the loss is on its way to
the epoch the transaction waits on. Explicit flushes are outside of this accounting, and the error
history forgets a failure that is delivered after a later one.
-/

namespace Aletheia.EpochWal

open List Machine

variable {accepted : Bool} {ring ring' : List ℕ}

/-- A wait on its epoch returns `Ok` only for a transaction whose entries have all been flushed. -/
def AcknowledgedDurable (s : EpochWal) : Prop :=
  ∀ r ∈ s.registered, s.groupCommit.waitForFlush r.epoch = .ok () → ∀ l ∈ r.lsns, l ∈ s.durable

/-- An explicit flush does not fail on entries it has taken, none is under way with entries when an
epoch is opened, and failures reach the error history in epoch order. -/
def Attributed (s : EpochWal) : Action → Prop
  | .openEpoch _ accepted => accepted → ∀ f ∈ s.explicitFlushes, f.held = []
  | .callerFlushes _ ok => ok
  | .finish accepted =>
    match s.cycle with
    | .finishing epoch result =>
      accepted → (fold s.carriedFailure result).isOk = false → s.groupCommit.InOrder epoch
    | _ => True
  | .retryFinish accepted =>
    match s.pendingFinishes with
    | (epoch, some _) :: _ => accepted → s.groupCommit.InOrder epoch
    | _ => True
  | _ => True

instance (s : EpochWal) (a : Action) : Decidable (s.Attributed a) := by
  unfold Attributed
  split
  · infer_instance
  · infer_instance
  · split <;> infer_instance
  · split <;> infer_instance
  · infer_instance

/-- The epoch whose outcome the flusher is about to deliver. -/
def opened (s : EpochWal) : Option ℕ :=
  match s.cycle with
  | .flushing _ opened => opened
  | .finishing epoch _ => some epoch
  | _ => none

/-- The epochs that are opened and not finished. -/
def outstanding (s : EpochWal) : List ℕ := s.pendingFinishes.map Prod.fst ++ s.opened.toList

/-- The flusher has the entry, and no epoch is opened for it. -/
def drainedUnopened (s : EpochWal) : List ℕ :=
  match s.cycle with
  | .draining _ entries | .opening entries | .flushing entries none => entries
  | _ => []

/-- The entry is on a ring or with an explicit flush. -/
def Held (s : EpochWal) (l : ℕ) : Prop :=
  l ∈ s.stripes.flatten ∨ ∃ f ∈ s.explicitFlushes, l ∈ f.held

/-- An entry of the current epoch that is not durable: where it is, or that its loss is noted. -/
def Waiting (s : EpochWal) (l : ℕ) : Prop :=
  s.Held l ∨ l ∈ s.drainedUnopened ∨ (s.carriedFailure.isSome ∧ s.opened = none)

/-- The same for the opened epoch. -/
def Flushing (s : EpochWal) (l : ℕ) : Prop :=
  (match s.cycle with
    | .flushing entries _ => l ∈ entries
    | .finishing _ result => result.isOk = false
    | _ => False) ∨ s.carriedFailure.isSome

/-- What has become of an entry whose transaction waits on `epoch`. -/
inductive Located (s : EpochWal) (epoch l : ℕ) : Prop where
  | durable (h : l ∈ s.durable)
  | waiting (hepoch : epoch = s.groupCommit.currentEpoch) (h : s.Waiting l)
  | flushing (hepoch : s.opened = some epoch) (h : s.Flushing l)
  | queued (message : String) (h : (epoch, some message) ∈ s.pendingFinishes)
  | failed (h : s.groupCommit.Failed epoch)

def lockHeld (s : EpochWal) : Bool :=
  match s.cycle with
  | .draining _ _ | .opening _ => true
  | _ => false

/-- The stripes the flusher has drained while it holds the membership lock. -/
def drained (s : EpochWal) : List (List ℕ) :=
  match s.cycle with
  | .draining next _ => s.stripes.take next
  | .opening _ => s.stripes
  | _ => []

structure Inv (s : EpochWal) : Prop where
  fresh : ∀ e, s.groupCommit.currentEpoch ≤ e → s.groupCommit.Unfinished e
  ordered : s.groupCommit.Ordered
  unfinished : ∀ e ∈ s.outstanding, s.groupCommit.Unfinished e ∧ e < s.groupCommit.currentEpoch
  nodup : s.outstanding.Nodup
  membership : s.lockHeld → s.batch = none
  empty : ∀ ring ∈ s.drained, ring = []
  placed : ∀ b ∈ s.batch, ∀ i < b.placed,
    b.firstLsn + i ∈ s.durable ∨ s.Held (b.firstLsn + i)
  located : ∀ r ∈ s.registered, ∀ l ∈ r.lsns, s.Located r.epoch l

variable {s s' : EpochWal}

lemma Inv.acknowledgedDurable (h : Inv s) : s.AcknowledgedDurable := by
  intro r hr hok l hl
  obtain ⟨hflushed, hfailed⟩ := GroupCommit.waitForFlush_eq_ok.mp hok
  cases h.located r hr l hl with
  | durable hmem => exact hmem
  | waiting hepoch _ =>
    have := (h.fresh r.epoch hepoch.ge).1
    omega
  | flushing hepoch _ =>
    have := (h.unfinished r.epoch (by simp [outstanding, hepoch])).1.1
    omega
  | queued message hmem =>
    have hout : r.epoch ∈ s.outstanding :=
      mem_append_left _ (mem_map.mpr ⟨_, hmem, rfl⟩)
    have := (h.unfinished r.epoch hout).1.1
    omega
  | failed hmem => exact absurd hmem hfailed

/-- A step that keeps the registrations and the outstanding epochs: what waited still does or is
durable now, and what was being flushed is accounted for. -/
lemma Inv.keep (h : Inv s) (hgroup : s'.groupCommit = s.groupCommit)
    (hout : s'.outstanding = s.outstanding) (hregistered : s'.registered = s.registered)
    (hqueued : s.pendingFinishes ⊆ s'.pendingFinishes) (hdurable : s.durable ⊆ s'.durable)
    (hmembership : s'.lockHeld → s'.batch = none) (hempty : ∀ ring ∈ s'.drained, ring = [])
    (hplaced : ∀ b ∈ s'.batch, ∀ i < b.placed,
      b.firstLsn + i ∈ s'.durable ∨ s'.Held (b.firstLsn + i))
    (hwait : ∀ l, s.Waiting l → l ∈ s'.durable ∨ s'.Waiting l)
    (hflush : ∀ e l, s.opened = some e → s.Flushing l → s'.Located e l) : Inv s' := by
  refine ⟨hgroup ▸ h.fresh, hgroup ▸ h.ordered, ?_, hout ▸ h.nodup, hmembership, hempty, hplaced, ?_⟩
  · rw [hgroup, hout]
    exact h.unfinished
  · intro r hr l hl
    rw [hregistered] at hr
    cases h.located r hr l hl with
    | durable hmem => exact .durable (hdurable hmem)
    | waiting hepoch hmem =>
      rcases hwait l hmem with hmem | hmem
      · exact .durable hmem
      · exact .waiting (hgroup ▸ hepoch) hmem
    | flushing hepoch hmem => exact hflush r.epoch l hepoch hmem
    | queued message hmem => exact .queued message (hqueued hmem)
    | failed hmem => exact .failed (hgroup ▸ hmem)

/-- A step of a committing thread or of an explicit flush: what was on a ring or with an explicit
flush still is, or is durable now. -/
lemma Inv.move (h : Inv s) (hgroup : s'.groupCommit = s.groupCommit) (hcycle : s'.cycle = s.cycle)
    (hpending : s'.pendingFinishes = s.pendingFinishes)
    (hcarried : s'.carriedFailure = s.carriedFailure) (hregistered : s'.registered = s.registered)
    (hdurable : s.durable ⊆ s'.durable) (hheld : ∀ l, s.Held l → l ∈ s'.durable ∨ s'.Held l)
    (hmembership : s'.lockHeld → s'.batch = none) (hempty : ∀ ring ∈ s'.drained, ring = [])
    (hplaced : ∀ b ∈ s'.batch, ∀ i < b.placed,
      b.firstLsn + i ∈ s'.durable ∨ s'.Held (b.firstLsn + i)) : Inv s' := by
  have hopened : s'.opened = s.opened := by simp only [opened, hcycle]
  have hout : s'.outstanding = s.outstanding := by simp only [outstanding, hpending, hopened]
  refine h.keep hgroup hout hregistered (hpending ▸ List.Subset.refl _) hdurable hmembership
    hempty hplaced ?_ ?_
  · rintro l (hmem | hmem | hmem)
    · exact (hheld l hmem).imp_right .inl
    · exact .inr (.inr (.inl (by simpa only [drainedUnopened, hcycle] using hmem)))
    · exact .inr (.inr (.inr (by rwa [hcarried, hopened])))
  · intro e l hepoch hflush
    refine .flushing (hopened ▸ hepoch) ?_
    unfold Flushing at hflush ⊢
    rwa [hcycle, hcarried]

variable {stripes : List (List ℕ)}

lemma mem_flatten_set {l : ℕ} {k : ℕ} (hring : stripes[k]? = some ring) (hmem : l ∈ stripes.flatten) :
    l ∈ ring ∨ l ∈ (stripes.set k ring').flatten := by
  obtain ⟨r, hr, hl⟩ := mem_flatten.mp hmem
  obtain ⟨j, hj⟩ := mem_iff_getElem?.mp hr
  by_cases hjk : k = j
  · subst hjk
    rw [hring] at hj
    exact .inl (Option.some.inj hj ▸ hl)
  · refine .inr (mem_flatten.mpr ⟨r, mem_iff_getElem?.mpr ⟨j, ?_⟩, hl⟩)
    rw [List.getElem?_set_ne hjk, hj]

lemma mem_flatten_set_self {l : ℕ} {k : ℕ} (hring : stripes[k]? = some ring) (hmem : l ∈ ring') :
    l ∈ (stripes.set k ring').flatten := by
  obtain ⟨hk, _⟩ := List.getElem?_eq_some_iff.mp hring
  exact mem_flatten.mpr ⟨ring', mem_iff_getElem?.mpr ⟨k, List.getElem?_set_self hk⟩, hmem⟩

variable (h : Inv s)

include h

lemma Inv.append (hs : s.append = some s') : Inv s' := by
  simp only [EpochWal.append, Option.bind_eq_bind, Option.bind_eq_some_iff] at hs
  obtain ⟨b, hb, ring, hring, hs⟩ := hs
  split_ifs at hs
  cases hs
  have hfree : s.lockHeld = false := by
    by_contra hlock
    have := h.membership (by simpa using hlock)
    rw [hb] at this
    cases this
  have hheld : ∀ l, s.Held l → l ∈ s.durable ∨ (l ∈ (s.stripes.set b.stripe
      (ring ++ [b.firstLsn + b.placed])).flatten ∨ ∃ f ∈ s.explicitFlushes, l ∈ f.held) := by
    rintro l (hmem | hmem)
    · rcases mem_flatten_set hring hmem with hmem | hmem
      · exact .inr (.inl (mem_flatten_set_self hring (mem_append_left _ hmem)))
      · exact .inr (.inl hmem)
    · exact .inr (.inr hmem)
  refine h.move rfl rfl rfl rfl rfl (List.Subset.refl _) hheld ?_ ?_ ?_
  · intro hlock
    exact absurd hlock (by simpa [lockHeld] using hfree)
  · intro r hr
    unfold lockHeld at hfree
    unfold drained at hr
    split at hr <;> simp_all
  · rintro b' hb' i hi
    cases hb'
    rcases Nat.lt_succ_iff_lt_or_eq.mp hi with hi | rfl
    · rcases h.placed b hb i hi with hmem | hmem
      · exact .inl hmem
      · exact hheld _ hmem
    · exact .inr (.inl (mem_flatten_set_self hring (by simp)))

lemma Inv.begin {stripe size : ℕ} (hs : s.begin stripe size = some s') : Inv s' := by
  unfold EpochWal.begin at hs
  split at hs
  · cases hs
  · cases hs
  next hdraining hopening =>
    split_ifs at hs
    cases hs
    refine h.move rfl rfl rfl rfl rfl (List.Subset.refl _) (fun l hl => .inr hl) ?_ h.empty ?_
    · intro hlock
      unfold lockHeld at hlock
      split at hlock
      next hc => exact absurd hc (hdraining _ _)
      next hc => exact absurd hc (hopening _)
      next => cases hlock
    · rintro b hb i hi
      cases hb
      exact absurd hi (Nat.not_lt_zero i)
  · cases hs

lemma Inv.abandon : Inv { s with batch := none } :=
  h.move rfl rfl rfl rfl rfl (List.Subset.refl _) (fun _ hl => .inr hl) (fun _ => rfl) h.empty
    (by simp)

lemma Inv.callFlush : Inv { s with explicitFlushes := s.explicitFlushes ++ [.draining 0 []] } := by
  have hheld : ∀ l, s.Held l → l ∈ s.stripes.flatten ∨
      ∃ f ∈ s.explicitFlushes ++ [.draining 0 []], l ∈ f.held := by
    rintro l (hmem | ⟨f, hf, hmem⟩)
    · exact .inl hmem
    · exact .inr ⟨f, mem_append_left _ hf, hmem⟩
  refine h.move rfl rfl rfl rfl rfl (List.Subset.refl _) (fun l hl => .inr (hheld l hl))
    h.membership h.empty ?_
  intro b hb i hi
  exact (h.placed b hb i hi).imp_right (hheld _)

lemma Inv.caller {caller : ℕ} {f f' : ExplicitFlush} {durable : List ℕ}
    (hf : s.explicitFlushes[caller]? = some f) (hdurable : s.durable ⊆ durable)
    (hheld : ∀ l ∈ f.held, l ∈ durable ∨ l ∈ f'.held)
    (hstripes : ∀ l ∈ s.stripes.flatten, l ∈ stripes.flatten ∨ l ∈ f'.held)
    (hempty : ∀ ring ∈ ({ s with stripes := stripes } : EpochWal).drained, ring = []) :
    Inv { s with
      explicitFlushes := s.explicitFlushes.set caller f', stripes := stripes
      durable := durable } := by
  obtain ⟨hcaller, _⟩ := List.getElem?_eq_some_iff.mp hf
  have hself : f' ∈ s.explicitFlushes.set caller f' :=
    mem_iff_getElem?.mpr ⟨caller, List.getElem?_set_self hcaller⟩
  have hall : ∀ l, s.Held l → l ∈ durable ∨
      (l ∈ stripes.flatten ∨ ∃ f ∈ s.explicitFlushes.set caller f', l ∈ f.held) := by
    rintro l (hmem | ⟨g, hg, hmem⟩)
    · exact .inr ((hstripes l hmem).imp_right fun hl => ⟨f', hself, hl⟩)
    · obtain ⟨j, hj⟩ := mem_iff_getElem?.mp hg
      by_cases hjc : caller = j
      · subst hjc
        rw [hf] at hj
        cases hj
        exact (hheld l hmem).imp_right fun hl => .inr ⟨f', hself, hl⟩
      · refine .inr (.inr ⟨g, mem_iff_getElem?.mpr ⟨j, ?_⟩, hmem⟩)
        rw [List.getElem?_set_ne hjc, hj]
  refine h.move rfl rfl rfl rfl rfl hdurable hall h.membership hempty ?_
  intro b hb i hi
  rcases h.placed b hb i hi with hmem | hmem
  · exact .inl (hdurable hmem)
  · exact hall _ hmem

/-- A ring that a drain empties was not one the flusher counts on, or stays empty. -/
lemma Inv.empty_set (k : ℕ) :
    ∀ ring ∈ ({ s with stripes := s.stripes.set k [] } : EpochWal).drained, ring = [] := by
  have hempty := h.empty
  intro ring hring
  unfold drained at hempty hring
  cases hc : s.cycle with
  | draining next entries =>
    simp only [hc, take_set] at hempty hring
    rcases mem_or_eq_of_mem_set hring with hmem | rfl
    · exact hempty ring hmem
    · rfl
  | opening entries =>
    simp only [hc] at hempty hring
    rcases mem_or_eq_of_mem_set hring with hmem | rfl
    · exact hempty ring hmem
    · rfl
  | _ => simp [hc] at hring

lemma Inv.callerDrains {caller : ℕ} (hs : s.callerDrains caller = some s') : Inv s' := by
  unfold EpochWal.callerDrains at hs
  split at hs
  next next entries hf =>
    split at hs
    next ring hring =>
      cases hs
      refine h.caller hf (List.Subset.refl _) (fun l hl => .inr (mem_append_left _ hl)) ?_
        (h.empty_set next)
      intro l hl
      rcases mem_flatten_set hring hl with hmem | hmem
      · exact .inr (mem_append_right _ hmem)
      · exact .inl hmem
    next =>
      cases hs
      exact h.caller hf (List.Subset.refl _)
        (fun l hl => .inr ((mem_insertionSort _).mpr hl)) (fun l hl => .inl hl) h.empty
  next => cases hs

lemma Inv.callerFlushes {caller : ℕ} {ok : Bool} (hok : ok = true)
    (hs : s.callerFlushes caller ok = some s') : Inv s' := by
  unfold EpochWal.callerFlushes at hs
  split at hs
  next entries hf =>
    rw [if_pos hok] at hs
    cases hs
    exact h.caller hf (subset_append_left _ _)
      (fun l hl => .inl (mem_append_right _ hl)) (fun l hl => .inl hl) h.empty
  next => cases hs

lemma Inv.unopened {cycle : CycleState} (hs : s' = { s with cycle := cycle, stripes := stripes })
    (hopened : s.opened = none) (hopened' : s'.opened = none)
    (hwait : ∀ l, s.Held l ∨ l ∈ s.drainedUnopened → s'.Held l ∨ l ∈ s'.drainedUnopened)
    (hmembership : s'.lockHeld → s.batch = none) (hbatch : s.batch ≠ none → stripes = s.stripes)
    (hempty : ∀ ring ∈ s'.drained, ring = []) : Inv s' := by
  have hout : s'.outstanding = s.outstanding := by
    unfold outstanding
    rw [hopened, hopened', hs]
  subst hs
  refine h.keep rfl hout rfl (List.Subset.refl _) (List.Subset.refl _) hmembership hempty ?_ ?_ ?_
  · intro b hb i hi
    have hstripes : stripes = s.stripes := hbatch (by simp [show s.batch = some b from hb])
    have hplaced := h.placed b hb i hi
    unfold Held at hplaced ⊢
    rwa [← hstripes] at hplaced
  · intro l hmem
    refine .inr ?_
    rw [Waiting, ← or_assoc] at hmem ⊢
    exact hmem.imp (hwait l) fun hcarried => ⟨hcarried.1, hopened'⟩
  · intro e l hepoch
    exact absurd (hopened.symm.trans hepoch) (by simp)

lemma Inv.startCycle (hs : s.step .startCycle = some s') : Inv s' := by
  simp only [step] at hs
  split at hs
  next hc =>
    refine h.unopened (Option.some.inj hs).symm (by simp [opened, hc]) ?_ ?_ ?_ (fun _ => rfl) ?_ <;>
      cases hs
    · rfl
    · rintro l (hmem | hmem)
      · exact .inl hmem
      · exact absurd hmem (by simp [drainedUnopened, hc])
    · intro hlock
      exact absurd hlock (by simp [lockHeld])
    · simp [drained]
  next => cases hs

lemma Inv.lockMembership (hs : s.lockMembership = some s') : Inv s' := by
  have hlocked : s.batch = none ∧ s.opened = none ∧ s.drainedUnopened = [] ∧
      s' = { s with cycle := .draining 0 [] } := by
    unfold EpochWal.lockMembership at hs
    split at hs
    next hc _ hb => simp_all [opened, drainedUnopened]
    next hc hb _ => simp_all [opened, drainedUnopened]
    next => cases hs
  obtain ⟨hbatch, hopened, hnone, rfl⟩ := hlocked
  refine h.unopened rfl hopened rfl ?_ (fun _ => hbatch) (fun _ => rfl) (by simp [drained])
  rintro l (hmem | hmem)
  · exact .inl hmem
  · exact absurd (hnone ▸ hmem) not_mem_nil

lemma Inv.drainStripe (hs : s.drainStripe = some s') : Inv s' := by
  unfold EpochWal.drainStripe at hs
  split at hs
  next next entries hc =>
    have hbatch : s.batch = none := h.membership (by simp [lockHeld, hc])
    have hopened : s.opened = none := by simp [opened, hc]
    have hempty := h.empty
    simp only [drained, hc] at hempty
    split at hs
    next ring hring =>
      refine h.unopened (Option.some.inj hs).symm hopened ?_ ?_ (fun _ => hbatch)
        (fun hne => absurd hbatch hne) ?_ <;> cases hs
      · rfl
      · rintro l ((hmem | hmem) | hmem)
        · rcases mem_flatten_set hring hmem with hmem | hmem
          · exact .inr (mem_append_right _ hmem)
          · exact .inl (.inl hmem)
        · exact .inl (.inr hmem)
        · refine .inr (mem_append_left _ ?_)
          simpa [drainedUnopened, hc] using hmem
      · -- the stripes up to this one
        intro r hr
        have hr : r ∈ (s.stripes.set next []).take (next + 1) := hr
        obtain ⟨j, hj⟩ := mem_iff_getElem?.mp hr
        rw [List.getElem?_take] at hj
        split_ifs at hj with hlt
        by_cases hjn : next = j
        · subst hjn
          rw [List.getElem?_set_self (List.getElem?_eq_some_iff.mp hring).1] at hj
          exact (Option.some.inj hj).symm
        · rw [List.getElem?_set_ne hjn] at hj
          refine hempty r (mem_iff_getElem?.mpr ⟨j, ?_⟩)
          rw [List.getElem?_take_of_lt (by omega), hj]
    next hnone =>
      refine h.unopened (Option.some.inj hs).symm hopened ?_ ?_ (fun _ => hbatch) (fun _ => rfl) ?_ <;>
        cases hs
      · rfl
      · rintro l (hmem | hmem)
        · exact .inl hmem
        · refine .inr ?_
          simpa [drainedUnopened, hc] using hmem
      · intro r hr
        refine hempty r ?_
        rwa [take_of_length_le (List.getElem?_eq_none_iff.mp hnone)]
  next => cases hs

/-- The epoch is opened: what waited in the current epoch is with the flusher now. -/
lemma Inv.opens {entries : List ℕ} (hc : s.cycle = .opening entries)
    (hcallers : ∀ f ∈ s.explicitFlushes, f.held = []) :
    Inv { s with
      groupCommit := s.groupCommit.startFlush
      cycle := .flushing entries (some s.groupCommit.currentEpoch) } := by
  have hopened : s.opened = none := by simp [opened, hc]
  have hout : s.outstanding = s.pendingFinishes.map Prod.fst := by simp [outstanding, hopened]
  have hbatch : s.batch = none := h.membership (by simp [lockHeld, hc])
  have hempty : ∀ ring ∈ s.stripes, ring = [] := by
    have := h.empty
    simpa only [drained, hc] using this
  have hunfinished := h.unfinished
  have hnodup := h.nodup
  rw [hout] at hunfinished hnodup
  refine ⟨?_, h.ordered, ?_, ?_, ?_, by simp [drained], ?_, ?_⟩
  · intro e he
    exact h.fresh e (Nat.le_of_succ_le he)
  · intro e he
    rcases mem_append.mp he with he | he
    · obtain ⟨hun, hlt⟩ := hunfinished e he
      exact ⟨hun, Nat.lt_succ_of_lt hlt⟩
    · obtain rfl : e = s.groupCommit.currentEpoch := by simpa [opened] using he
      exact ⟨h.fresh _ le_rfl, Nat.lt_succ_self _⟩
  · refine nodup_append.mpr ⟨hnodup, by simp [opened], ?_⟩
    rintro a ha b hb rfl
    obtain rfl : a = s.groupCommit.currentEpoch := by simpa [opened] using hb
    exact absurd (hunfinished _ ha).2 (lt_irrefl _)
  · intro hlock
    exact absurd hlock (by simp [lockHeld])
  · intro b hb
    exact absurd (hbatch.symm.trans hb) (by simp)
  · intro r hr l hl
    cases h.located r hr l hl with
    | durable hmem => exact .durable hmem
    | waiting hepoch hwait =>
      refine .flushing (by simp [opened, hepoch]) ?_
      rcases hwait with (hmem | ⟨f, hf, hmem⟩) | hmem | hmem
      · obtain ⟨ring, hring, hmem⟩ := mem_flatten.mp hmem
        rw [hempty ring hring] at hmem
        exact absurd hmem not_mem_nil
      · rw [hcallers f hf] at hmem
        exact absurd hmem not_mem_nil
      · exact .inl (by simpa [drainedUnopened, hc] using hmem)
      · exact .inr hmem.1
    | flushing hepoch _ => exact absurd (hopened.symm.trans hepoch) (by simp)
    | queued message hmem => exact .queued message hmem
    | failed hmem => exact .failed hmem

lemma Inv.openEpoch {batchReadable accepted : Bool}
    (hcallers : accepted = true → ∀ f ∈ s.explicitFlushes, f.held = [])
    (hs : s.openEpoch batchReadable accepted = some s') : Inv s' := by
  unfold EpochWal.openEpoch at hs
  split at hs
  next entries hc =>
    have hopened : s.opened = none := by simp [opened, hc]
    have hbatch : s.batch = none := h.membership (by simp [lockHeld, hc])
    split_ifs at hs with hmark haccepted
    · cases hs
      exact h.opens hc (hcallers haccepted)
    · refine h.unopened (Option.some.inj hs).symm hopened ?_ ?_ (fun _ => hbatch) (fun _ => rfl) ?_ <;>
        cases hs
      · rfl
      · rintro l (hmem | hmem)
        · exact .inl hmem
        · exact .inr (by simpa [drainedUnopened, hc] using hmem)
      · simp [drained]
    · refine h.unopened (Option.some.inj hs).symm hopened ?_ ?_ (fun _ => hbatch) (fun _ => rfl) ?_ <;>
        cases hs
      · rfl
      · rintro l (hmem | hmem)
        · exact .inl hmem
        · simp only [drainedUnopened, hc] at hmem
          have hnil : entries = [] := by simp_all
          exact absurd (hnil ▸ hmem) not_mem_nil
      · simp [drained]
  next => cases hs

omit h

variable {result : Except String Unit}

lemma isSome_carry {carried : Option String}
    (h : carried.isSome ∨ result.isOk = false) : (carry carried result).isSome := by
  cases result with
  | ok u => exact h.resolve_right (by simp [Except.isOk, Except.toBool])
  | error message => rfl

section Flushed

variable {entries durable : List ℕ} {result : Except String Unit} (h : Inv s)
  (hsub : s.durable ⊆ durable) (hresult : ∀ l ∈ entries, l ∈ durable ∨ result.isOk = false)
include h hsub hresult

lemma Inv.flushed {epoch : ℕ} (hc : s.cycle = .flushing entries (some epoch)) :
    Inv { s with durable := durable, cycle := .finishing epoch result } := by
  have hopened : s.opened = some epoch := by simp [opened, hc]
  refine h.keep rfl (by simp [outstanding, opened, hc]) rfl (List.Subset.refl _) hsub
    (by simp [lockHeld]) (by simp [drained])
    (fun b hb i hi => (h.placed b hb i hi).imp_left fun hmem => hsub hmem) ?_ ?_
  · rintro l (hmem | hmem | hmem)
    · exact .inr (.inl hmem)
    · exact absurd hmem (by simp [drainedUnopened, hc])
    · exact absurd (hopened.symm.trans hmem.2) (by simp)
  · intro e l hepoch hflush
    have hepoch' : some epoch = some e := hopened.symm.trans hepoch
    simp only [Flushing, hc] at hflush
    rcases hflush with hmem | hcarried
    · rcases hresult l hmem with hmem | hfailed
      · exact .durable hmem
      · exact .flushing hepoch' (.inl hfailed)
    · exact .flushing hepoch' (.inr hcarried)

lemma Inv.carried (hc : s.cycle = .flushing entries none) :
    Inv { s with
      durable := durable, cycle := .idle, carriedFailure := carry s.carriedFailure result } := by
  have hopened : s.opened = none := by simp [opened, hc]
  refine h.keep rfl (by simp [outstanding, opened, hc]) rfl (List.Subset.refl _) hsub
    (by simp [lockHeld]) (by simp [drained])
    (fun b hb i hi => (h.placed b hb i hi).imp_left fun hmem => hsub hmem) ?_ ?_
  · rintro l (hmem | hmem | hmem)
    · exact .inr (.inl hmem)
    · simp only [drainedUnopened, hc] at hmem
      exact (hresult l hmem).imp_right fun hfailed =>
        .inr (.inr ⟨isSome_carry (.inr hfailed), rfl⟩)
    · exact .inr (.inr (.inr ⟨isSome_carry (.inl hmem.1), rfl⟩))
  · intro e l hepoch
    exact absurd (hopened.symm.trans hepoch) (by simp)

end Flushed

lemma Inv.flushEntries (h : Inv s) (hs : s.flushEntries result = some s') : Inv s' := by
  unfold EpochWal.flushEntries at hs
  split at hs
  next entries opened hc =>
    by_cases hok : result.isOk
    · have hresult : ∀ l ∈ entries, l ∈ s.durable ++ entries ∨ result.isOk = false :=
        fun l hl => .inl (mem_append_right _ hl)
      simp only [hok, not_true_eq_false, and_false, if_false, if_true] at hs
      cases opened <;> cases hs
      · exact h.carried (subset_append_left _ _) hresult hc
      · exact h.flushed (subset_append_left _ _) hresult hc
    · have hresult : ∀ l ∈ entries, l ∈ s.durable ∨ result.isOk = false :=
        fun _ _ => .inr (by simpa using hok)
      split_ifs at hs
      cases opened <;> cases hs
      · exact h.carried (List.Subset.refl _) hresult hc
      · exact h.flushed (List.Subset.refl _) hresult hc
  next => cases hs

lemma exists_error (h : result.isOk = false) : ∃ message, result = .error message := by
  cases result with
  | ok u => exact absurd h (by simp [Except.isOk, Except.toBool])
  | error message => exact ⟨message, rfl⟩

lemma Inv.deliver {epoch : ℕ} (h : Inv s) (hout : s.outstanding.Perm (epoch :: s'.outstanding))
    (hgroup : s'.groupCommit = s.groupCommit.finishFlush epoch result)
    (horder : result.isOk = false → s.groupCommit.InOrder epoch) (hbatch : s'.batch = s.batch)
    (hstripes : s'.stripes = s.stripes) (hcallers : s'.explicitFlushes = s.explicitFlushes)
    (hdurable : s'.durable = s.durable) (hlock : s'.lockHeld = false) (hdrained : s'.drained = [])
    (hlocated : (∀ e, s.groupCommit.Failed e → s'.groupCommit.Failed e) →
      (result.isOk = false → s'.groupCommit.Failed epoch) →
      ∀ r ∈ s'.registered, ∀ l ∈ r.lsns, s'.Located r.epoch l) : Inv s' := by
  have horder' : ∀ message, result = .error message → s.groupCommit.InOrder epoch := by
    rintro message rfl
    exact horder rfl
  obtain ⟨hordered, hstable, hfailed⟩ := GroupCommit.failed_finishFlush h.ordered horder'
  rw [← hgroup] at hordered hstable hfailed
  obtain ⟨_, hlt⟩ := h.unfinished epoch (hout.mem_iff.mpr mem_cons_self)
  obtain ⟨hnew, hnodup⟩ := nodup_cons.mp (hout.nodup_iff.mp h.nodup)
  refine ⟨?_, hordered, ?_, hnodup, ?_, ?_, ?_, ?_⟩
  · intro e he
    rw [hgroup] at he ⊢
    rw [GroupCommit.currentEpoch_finishFlush] at he
    exact GroupCommit.unfinished_finishFlush.mpr ⟨by omega, h.fresh e he⟩
  · intro e he
    obtain ⟨hun, hlt⟩ := h.unfinished e (hout.mem_iff.mpr (mem_cons_of_mem _ he))
    rw [hgroup, GroupCommit.currentEpoch_finishFlush]
    exact ⟨GroupCommit.unfinished_finishFlush.mpr ⟨fun heq => hnew (heq ▸ he), hun⟩, hlt⟩
  · intro hl
    exact absurd hl (by simp [hlock])
  · simp [hdrained]
  · intro b hb i hi
    have hplaced := h.placed b (hbatch ▸ hb) i hi
    unfold Held at hplaced ⊢
    rwa [hdurable, hstripes, hcallers]
  · refine hlocated hstable fun herror => ?_
    obtain ⟨message, hmessage⟩ := exists_error herror
    exact hfailed message hmessage

lemma fold_isOk {carried : Option String}
    (h : result.isOk = false ∨ carried.isSome) : (fold carried result).isOk = false := by
  cases carried with
  | none => exact h.resolve_right (by simp)
  | some earlier => cases result <;> rfl

section Finishing

variable {epoch : ℕ} {result : Except String Unit} (hc : s.cycle = .finishing epoch result)
include hc

lemma outstanding_of_finishing : s.outstanding = s.pendingFinishes.map Prod.fst ++ [epoch] := by
  simp [outstanding, opened, hc]

lemma fold_of_finishing {l : ℕ} (h : s.Flushing l) :
    (fold s.carriedFailure result).isOk = false := by
  simp only [Flushing, hc] at h
  exact fold_isOk h

lemma held_of_finishing {l : ℕ} (h : s.Waiting l) : s.Held l := by
  rcases h with hmem | hmem | hmem
  · exact hmem
  · exact absurd hmem (by simp [drainedUnopened, hc])
  · exact absurd hmem.2 (by simp [opened, hc])

lemma Inv.finished (h : Inv s)
    (horder : (fold s.carriedFailure result).isOk = false → s.groupCommit.InOrder epoch) :
    Inv { s with
      groupCommit := s.groupCommit.finishFlush epoch (fold s.carriedFailure result)
      cycle := .idle
      carriedFailure := none } := by
  refine h.deliver ?_ rfl horder rfl rfl rfl rfl rfl rfl ?_
  · rw [outstanding_of_finishing hc]
    simp [outstanding, opened]
  · intro hstable hnew r hr l hl
    cases h.located r hr l hl with
    | durable hmem => exact .durable hmem
    | waiting hepoch hwait =>
      exact .waiting (by simpa using hepoch) (.inl (held_of_finishing hc hwait))
    | flushing hepoch hflush =>
      obtain rfl : epoch = r.epoch := by simpa [opened, hc] using hepoch
      exact .failed (hnew (fold_of_finishing hc hflush))
    | queued message hmem => exact .queued message hmem
    | failed hmem => exact .failed (hstable _ hmem)

lemma Inv.queue {cycle : CycleState} (h : Inv s) (hcycle : cycle = .idle ∨ cycle = .dead) :
    Inv { s with
      pendingFinishes := s.pendingFinishes ++ [(epoch, stored (fold s.carriedFailure result))]
      cycle := cycle
      carriedFailure := none } := by
  refine h.keep rfl ?_ rfl (subset_append_left _ _) (List.Subset.refl _) ?_ ?_ h.placed ?_ ?_
  · rw [outstanding_of_finishing hc]
    rcases hcycle with rfl | rfl <;> simp [outstanding, opened]
  · rcases hcycle with rfl | rfl <;> simp [lockHeld]
  · rcases hcycle with rfl | rfl <;> simp [drained]
  · exact fun l hwait => .inr (.inl (held_of_finishing hc hwait))
  · intro e l hepoch hflush
    obtain rfl : epoch = e := by simpa [opened, hc] using hepoch
    obtain ⟨message, hmessage⟩ := exists_error (fold_of_finishing hc hflush)
    exact .queued message (by simp [hmessage, stored])

end Finishing

lemma Inv.finish (h : Inv s) (horder : s.Attributed (.finish accepted))
    (hs : s.finish accepted = some s') : Inv s' := by
  unfold EpochWal.finish at hs
  split at hs
  next epoch result hc =>
    simp only [Attributed, hc] at horder
    by_cases haccepted : accepted
    · rw [if_pos haccepted] at hs
      cases hs
      exact h.finished hc (horder haccepted)
    · rw [if_neg haccepted] at hs
      cases hs
      refine h.queue hc ?_
      split_ifs
      · exact .inr rfl
      · exact .inl rfl
  next => cases hs

lemma Inv.retryFinish (h : Inv s) (horder : s.Attributed (.retryFinish accepted))
    (hs : s.retryFinish accepted = some s') : Inv s' := by
  unfold EpochWal.retryFinish at hs
  split at hs
  next epoch message? rest hc hpending =>
    have hopened : s.opened = none := by simp [opened, hc]
    have hnone : s.drainedUnopened = [] := by simp [drainedUnopened, hc]
    by_cases haccepted : accepted
    · rw [if_pos haccepted] at hs
      cases hs
      refine h.deliver ?_ rfl ?_ rfl rfl rfl rfl ?_ ?_ ?_
      · simp [outstanding, hpending, opened, hc]
      · intro hfailed
        cases message? with
        | none => exact absurd hfailed (by simp [outcome, Except.isOk, Except.toBool])
        | some message =>
          simp only [Attributed, hpending] at horder
          exact horder haccepted
      · simp [lockHeld, hc]
      · simp [drained, hc]
      · intro hstable hnew r hr l hl
        cases h.located r hr l hl with
        | durable hmem => exact .durable hmem
        | waiting hepoch hwait => exact .waiting (by simpa using hepoch) hwait
        | flushing hepoch _ => exact absurd (hopened.symm.trans hepoch) (by simp)
        | queued message hmem =>
          rw [hpending] at hmem
          rcases mem_cons.mp hmem with heq | hmem
          · cases heq
            exact .failed (hnew rfl)
          · exact .queued message hmem
        | failed hmem => exact .failed (hstable _ hmem)
    · rw [if_neg haccepted] at hs
      refine h.unopened (Option.some.inj hs).symm hopened ?_ ?_ ?_ (fun _ => rfl) ?_ <;>
        cases hs
      · rfl
      · rintro l (hmem | hmem)
        · exact .inl hmem
        · exact absurd (hnone ▸ hmem) not_mem_nil
      · simp [lockHeld]
      · simp [drained]
  next => cases hs

lemma Inv.register (h : Inv s) (hs : s.register accepted = some s') : Inv s' := by
  simp only [EpochWal.register, Option.bind_eq_bind, Option.bind_eq_some_iff] at hs
  obtain ⟨b, hb, hs⟩ := hs
  split_ifs at hs with hplaced haccepted
  · cases hs
    refine ⟨h.fresh, h.ordered, h.unfinished, h.nodup, fun _ => rfl, h.empty, by simp, ?_⟩
    intro r hr l hl
    rcases mem_append.mp hr with hr | hr
    · cases h.located r hr l hl with
      | durable hmem => exact .durable hmem
      | waiting hepoch hwait => exact .waiting hepoch hwait
      | flushing hepoch hflush => exact .flushing hepoch hflush
      | queued message hmem => exact .queued message hmem
      | failed hmem => exact .failed hmem
    · obtain rfl := mem_singleton.mp hr
      obtain ⟨i, hi, rfl⟩ := mem_range'.mp hl
      rw [Nat.one_mul]
      rcases h.placed b hb i (by rw [hplaced]; exact hi) with hmem | hmem
      · exact .durable hmem
      · exact .waiting rfl (.inl hmem)
  · cases hs
    exact h.abandon

lemma inv_step {a : Action} (h : Inv s) (hattr : s.Attributed a) (hs : s.step a = some s') :
    Inv s' := by
  cases a with
  | «begin» stripe size => exact h.begin hs
  | append => exact h.append hs
  | giveUp =>
    simp only [step] at hs
    split_ifs at hs
    cases hs
    exact h.abandon
  | register accepted => exact h.register hs
  | startCycle => exact h.startCycle hs
  | retryFinish accepted => exact h.retryFinish hattr hs
  | lockMembership => exact h.lockMembership hs
  | drainStripe => exact h.drainStripe hs
  | openEpoch batchReadable accepted => exact h.openEpoch hattr hs
  | flushEntries result => exact h.flushEntries hs
  | finish accepted => exact h.finish hattr hs
  | callFlush =>
    cases hs
    exact h.callFlush
  | callerDrains caller => exact h.callerDrains hs
  | callerFlushes caller ok => exact h.callerFlushes hattr hs

lemma inv_init (recentErrorsCapacity stripeCount stripeCapacity : ℕ) :
    Inv (init recentErrorsCapacity stripeCount stripeCapacity) where
  fresh e he := ⟨he, by simp [init, GroupCommit.new]⟩
  ordered := ⟨List.Pairwise.nil, by simp [init, GroupCommit.new]⟩
  unfinished := by simp [init, outstanding, opened]
  nodup := by simp [init, outstanding, opened]
  membership := by simp [init, lockHeld]
  empty := by simp [init, drained]
  placed := by simp [init]
  located := by simp [init]

/-- **Acknowledged commits are durable.** -/
theorem acknowledged_durable (recentErrorsCapacity stripeCount stripeCapacity : ℕ)
    (as : List Action)
    (hattr : Machine.Along step Attributed (init recentErrorsCapacity stripeCount stripeCapacity) as)
    (hrun : Machine.run step (init recentErrorsCapacity stripeCount stripeCapacity) as = some s) :
    s.AcknowledgedDurable :=
  (invariant_run (fun _ _ _ => inv_step)
    (inv_init recentErrorsCapacity stripeCount stripeCapacity) hattr hrun).acknowledgedDurable

/-- A transaction whose wait returns `Ok` although one of its entries was never flushed. -/
def FalseSuccess (s : EpochWal) : Prop :=
  ∃ r ∈ s.registered, (s.groupCommit.waitForFlush r.epoch).isOk ∧ ∃ l ∈ r.lsns, l ∉ s.durable

instance (s : EpochWal) : Decidable s.FalseSuccess := by
  unfold FalseSuccess
  infer_instance

lemma FalseSuccess.not_acknowledgedDurable (h : s.FalseSuccess) : ¬ s.AcknowledgedDurable := by
  obtain ⟨r, hr, hok, l, hl, hnot⟩ := h
  intro hack
  cases hwait : s.groupCommit.waitForFlush r.epoch with
  | error e =>
    rw [hwait] at hok
    exact absurd hok (by simp [Except.isOk, Except.toBool])
  | ok u => exact hnot (hack r hr hwait l hl)

def commitOne : List Action := [.begin 0 1, .append, .register true]

def drainOne : List Action := [.lockMembership, .drainStripe, .drainStripe, .openEpoch true true]

/-- An explicit flush takes the entry of a registered transaction and fails; the next cycle finds
nothing to flush and finishes the epoch with success. -/
def lostByCaller : List Action :=
  List.flatten
    [commitOne, [.callFlush, .callerDrains 0, .callerDrains 0, .callerFlushes 0 false, .startCycle],
      drainOne, [.flushEntries (.ok ()), .finish true]]

/-- Three failed flushes with room for one failure in the history. The finish of the first epoch is
refused, the second one's is not; when the first is retried and the third is added, the history
claims to go back to the second epoch, whose failure it has dropped. -/
def forgottenFailure : List Action :=
  List.flatten
    [commitOne, [.startCycle], drainOne, [.flushEntries (.error "disk full"), .finish false],
      commitOne, [.startCycle, .retryFinish false], drainOne,
      [.flushEntries (.error "disk full"), .finish true],
      commitOne, [.startCycle, .retryFinish true], drainOne,
      [.flushEntries (.error "disk full"), .finish true]]

theorem acknowledged_not_durable :
    (∃ s, Machine.run step (init 1024 1 8) lostByCaller = some s ∧ ¬ s.AcknowledgedDurable) ∧
      ∃ s, Machine.run step (init 1 1 8) forgottenFailure = some s ∧ ¬ s.AcknowledgedDurable := by
  have hlost : ∃ s ∈ run step (init 1024 1 8) lostByCaller, s.FalseSuccess := by
    decide +kernel
  have hforgotten : ∃ s ∈ run step (init 1 1 8) forgottenFailure, s.FalseSuccess := by
    decide +kernel
  obtain ⟨s₁, hs₁, h₁⟩ := hlost
  obtain ⟨s₂, hs₂, h₂⟩ := hforgotten
  exact ⟨⟨s₁, hs₁, h₁.not_acknowledgedDurable⟩, ⟨s₂, hs₂, h₂.not_acknowledgedDurable⟩⟩

/-- A cycle with a failed flush and one with a success, and an explicit flush that succeeds. -/
def acknowledgedCommits : List Action :=
  List.flatten
    [commitOne, [.startCycle], drainOne, [.flushEntries (.error "disk full"), .finish true],
      commitOne, [.callFlush, .callerDrains 0, .callerDrains 0, .callerFlushes 0 true, .startCycle],
      drainOne, [.flushEntries (.ok ()), .finish true]]

theorem acknowledged_durable_commits : ∃ s,
    Machine.run step (init 1024 1 8) acknowledgedCommits = some s ∧
      (∃ r ∈ s.registered, (s.groupCommit.waitForFlush r.epoch).isOk) ∧
      s.AcknowledgedDurable := by
  have h : ∃ s ∈ run step (init 1024 1 8) acknowledgedCommits,
      ∃ r ∈ s.registered, (s.groupCommit.waitForFlush r.epoch).isOk := by
    decide +kernel
  obtain ⟨s, hs, hr⟩ := h
  exact ⟨s, hs, hr, acknowledged_durable 1024 1 8 acknowledgedCommits (by decide +kernel) hs⟩

end Aletheia.EpochWal
