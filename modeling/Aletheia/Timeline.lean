import Aletheia.History

/-!
# Bi-temporal timelines

What the history of one entity is for, without version ids or links: a timeline is the list of its
recorded entries, newest first, each a rectangle of valid and transaction time with the content
believed there. The operations below say what a write does to the rectangles; `WellFormed` says
that no two of them overlap, `Live` that the recorded ones tile `[lo, ∞)`.
-/

namespace Aletheia

open List

variable {X : Type}

structure Entry (X : Type) where
  temporal : BiTemporalInterval
  content : Content X
  structural : Bool

namespace Entry

abbrev valid (r : Entry X) : TimeRange := r.temporal.validTime
abbrev tx (r : Entry X) : TimeRange := r.temporal.transactionTime

/-- The entry is still part of what is believed now. -/
def Recorded (r : Entry X) : Prop := r.tx.stop = timestampMax

/-- `v` is in the entry's valid interval. -/
def Holds (r : Entry X) (v : Timestamp) : Prop := r.valid.start ≤ v ∧ v < r.valid.stop

/-- `(v, s)` is in the entry's rectangle. -/
def Visible (r : Entry X) (v s : Timestamp) : Prop :=
  r.Holds v ∧ r.tx.start ≤ s ∧ s < r.tx.stop

/-- Withdraw the entry as of `c`. -/
def close (c : Timestamp) (r : Entry X) : Entry X :=
  { r with temporal.transactionTime.stop := c }

instance (r : Entry X) : Decidable r.Recorded := inferInstanceAs (Decidable (_ = _))
instance (r : Entry X) (v : Timestamp) : Decidable (r.Holds v) := inferInstanceAs (Decidable (_ ∧ _))
instance (r : Entry X) (v s : Timestamp) : Decidable (r.Visible v s) :=
  inferInstanceAs (Decidable (_ ∧ _))

variable {r r' : Entry X} {c v s : Timestamp}

lemma visible_iff : r.temporal.isVisibleAt v s = true ↔ r.Visible v s := by
  simp [Visible, Holds]

lemma isOpenSlice_iff :
    isOpenSlice r.temporal = true ↔ r.Recorded ∧ r.valid.start < r.valid.stop := by
  simp [isOpenSlice, Recorded]

lemma isOpenSlice_of_holds (hr : r.Recorded) (hv : r.Holds v) : isOpenSlice r.temporal = true :=
  isOpenSlice_iff.mpr ⟨hr, hv.1.trans_lt hv.2⟩

/-- Two entries with no common point. -/
def Apart (r r' : Entry X) : Prop := ∀ v s, r.Visible v s → ¬ r'.Visible v s

lemma Apart.symm (h : r.Apart r') : r'.Apart r := fun v s h1 h2 => h v s h2 h1

instance : Std.Symm (Apart (X := X)) := ⟨fun _ _ h => h.symm⟩

lemma visible_of_close_visible (hr : r.Recorded) (hc : c.Valid) (h : (r.close c).Visible v s) :
    r.Visible v s :=
  ⟨h.1, h.2.1, by rw [hr]; exact h.2.2.trans hc.lt_max⟩

/-- `r'` is `r`, or `r` withdrawn at `c`. -/
def Withdrawn (c : Timestamp) (r r' : Entry X) : Prop := r' = r ∨ r.Recorded ∧ r' = r.close c

lemma Withdrawn.start_eq (h : r.Withdrawn c r') : r'.tx.start = r.tx.start := by
  rcases h with rfl | ⟨-, rfl⟩ <;> rfl

lemma Withdrawn.visible (h : r.Withdrawn c r') (hc : c.Valid) (hv : r'.Visible v s) :
    r.Visible v s := by
  rcases h with rfl | ⟨hrec, rfl⟩
  · exact hv
  · exact visible_of_close_visible hrec hc hv

end Entry

/-- The recorded history of one entity, newest entry first. -/
abbrev Timeline (X : Type) := List (Entry X)

namespace Timeline

variable {l : Timeline X} {r r' hd : Entry X} {c vf vt v s lo hi clock : Timestamp}
  {content : Content X}

/-! ### The operations -/

/-- An entry recorded at `c`. -/
def entryAt (c start stop : Timestamp) (content : Content X) (structural : Bool) : Entry X :=
  ⟨⟨⟨start, stop⟩, .fromStart c⟩, content, structural⟩

/-- The first entry is written at commit `c`. -/
def create (vf c : Timestamp) (content : Content X) : Timeline X :=
  [entryAt c vf timestampMax content false]

/-- The recorded entry that holds at `vf`. -/
def covering (l : Timeline X) (vf : Timestamp) : Option (Entry X) :=
  l.find? fun r => r.Recorded ∧ r.Holds vf

/-- The least start after `vf` of a recorded entry that holds somewhere. -/
def nextStart (l : Timeline X) (vf : Timestamp) : Option Timestamp :=
  ((l.filter fun r => isOpenSlice r.temporal ∧ vf < r.valid.start).map (·.valid.start)).min?

/-- Where the belief written at `vf` ends: with the entry it lands in, or where the next begins. -/
def updateStop (l : Timeline X) (vf : Timestamp) : Timestamp :=
  match l.covering vf with
  | some p => p.valid.stop
  | none => (l.nextStart vf).getD timestampMax

/-- Withdraw the entry if it is the one that holds at `vf`. -/
def supersede (vf c : Timestamp) (r : Entry X) : Entry X :=
  if r.Recorded ∧ r.Holds vf then r.close c else r

/-- An update at `vf` withdraws the newest entry and the one it lands in. -/
def supersedeAll (vf c : Timestamp) : Timeline X → Timeline X
  | [] => []
  | hd :: tl => hd.close c :: tl.map (supersede vf c)

/-- The part of the withdrawn entry before `vf`, asserted again. -/
def carry (l : Timeline X) (vf c : Timestamp) (ends : X) : Timeline X :=
  match l.covering vf with
  | some p =>
    if p.valid.start < vf then [entryAt c p.valid.start vf { p.content with ends } true] else []
  | none => []

/-- After a backfill, the open-ended entry asserted again. -/
def reassert (l : Timeline X) (vf c : Timestamp) (ends : X) : Timeline X :=
  match l.head? with
  | some hd =>
    if vf < hd.valid.start then
      [entryAt c hd.valid.start timestampMax { hd.content with ends } true]
    else []
  | none => []

/-- Believe `content` from `vf` on, up to where the belief that held at `vf` ended. -/
def update (vf c : Timestamp) (content : Content X) (l : Timeline X) : Timeline X :=
  l.reassert vf c content.ends ++ entryAt c vf (l.updateStop vf) content false ::
    (l.carry vf c content.ends ++ l.supersedeAll vf c)

/-- Withdraw everything; the tombstone holds nowhere. -/
def delete (vf c : Timestamp) (content : Content X) (l : Timeline X) : Timeline X :=
  entryAt c vf vf content false :: l.map fun r => if r.Recorded then r.close c else r

/-- Replace the open-ended entry by one that ends at `vt`. -/
def retract (vt c : Timestamp) (content : Content X) : Timeline X → Timeline X
  | [] => []
  | hd :: tl => entryAt c hd.valid.start vt content false :: hd.close c :: tl

/-! ### The invariants -/

/-- No two rectangles overlap, and `clock` bounds every commit so far. -/
structure WellFormed (l : Timeline X) (clock : Timestamp) : Prop where
  valid : clock.Valid
  apart : l.Pairwise Entry.Apart
  start_le : ∀ r ∈ l, r.tx.start ≤ clock
  stop_le : ∀ r ∈ l, r.Recorded ∨ r.tx.stop ≤ clock

/-- `v` is in the valid interval of a recorded entry. -/
def Covers (l : Timeline X) (v : Timestamp) : Prop := ∃ r ∈ l, r.Recorded ∧ r.Holds v

/-- The recorded entries tile `[lo, ∞)` and the newest one is open-ended. -/
structure Live (l : Timeline X) (lo clock : Timestamp) : Prop extends WellFormed l clock where
  head : ∃ hd, l.head? = some hd ∧ hd.Recorded ∧ hd.valid.start.Valid ∧
    hd.valid.stop = timestampMax
  covers : ∀ v, l.Covers v ↔ lo ≤ v ∧ v < timestampMax
  nonempty : ∀ r ∈ l, r.Recorded → r.valid.start < r.valid.stop

/-! ### Covering entries -/

lemma covering_eq_some (h : l.covering vf = some r) : r ∈ l ∧ r.Recorded ∧ r.Holds vf := by
  have hp := List.find?_some h
  exact ⟨mem_of_find?_eq_some h, by simpa using hp⟩

lemma covering_eq_none (h : l.covering vf = none) (hr : r ∈ l) (hrec : r.Recorded) :
    ¬ r.Holds vf := by
  have := List.find?_eq_none.mp h r hr
  simpa [hrec] using this

lemma nextStart_eq_some {n : Timestamp} (h : l.nextStart vf = some n) :
    (∃ r ∈ l, isOpenSlice r.temporal = true ∧ vf < r.valid.start ∧ r.valid.start = n) ∧
      ∀ r ∈ l, isOpenSlice r.temporal = true → vf < r.valid.start → n ≤ r.valid.start := by
  obtain ⟨hmem, hle⟩ := List.min?_eq_some_iff.mp h
  simp only [mem_map, mem_filter, decide_eq_true_eq] at hmem hle
  obtain ⟨r, ⟨hr, ho, hlt⟩, rfl⟩ := hmem
  exact ⟨⟨r, hr, ho, hlt, rfl⟩, fun r' hr' ho' hlt' => hle _ ⟨r', ⟨hr', ho', hlt'⟩, rfl⟩⟩

lemma nextStart_eq_none (h : l.nextStart vf = none) (hr : r ∈ l)
    (ho : isOpenSlice r.temporal = true) : r.valid.start ≤ vf := by
  simp only [nextStart, List.min?_eq_none_iff, map_eq_nil_iff, filter_eq_nil_iff,
    decide_eq_true_eq, not_and, not_lt] at h
  exact h r hr ho

/-! ### Well-formedness through closing and appending -/

namespace WellFormed

variable (h : WellFormed l clock)

include h

lemma visible_clock (hr : r ∈ l) (hrec : r.Recorded) (hv : r.Holds v) : r.Visible v clock :=
  ⟨hv, h.start_le r hr, by rw [hrec]; exact h.valid.lt_max⟩

lemma mono (hle : clock ≤ c) (hc : c.Valid) : WellFormed l c :=
  ⟨hc, h.apart, fun r hr => (h.start_le r hr).trans hle,
    fun r hr => (h.stop_le r hr).imp id fun h => h.trans hle⟩

lemma eq_of_visible (hr : r ∈ l) (hr' : r' ∈ l) (hv : r.Visible v s) (hv' : r'.Visible v s) :
    r = r' := by
  by_contra hne
  exact h.apart.forall hr hr' hne v s hv hv'

lemma eq_of_holds (hr : r ∈ l) (hr' : r' ∈ l) (hrec : r.Recorded) (hrec' : r'.Recorded)
    (hv : r.Holds v) (hv' : r'.Holds v) : r = r' :=
  h.eq_of_visible hr hr' (h.visible_clock hr hrec hv) (h.visible_clock hr' hrec' hv')

lemma of_withdrawn (hle : clock ≤ c) (hc : c.Valid) {l' : Timeline X}
    (hw : List.Forall₂ (Entry.Withdrawn c) l l') : WellFormed l' c := by
  have hmem : ∀ r' ∈ l', ∃ r ∈ l, r.Withdrawn c r' := fun r' hr' => by
    obtain ⟨i, hi, rfl⟩ := getElem_of_mem hr'
    have hi' : i < l.length := hw.length_eq ▸ hi
    exact ⟨l[i], getElem_mem hi', hw.get hi' hi⟩
  refine ⟨hc, ?_, fun r' hr' => ?_, fun r' hr' => ?_⟩
  · have happ := h.apart
    clear h hmem
    induction hw with
    | nil => exact List.Pairwise.nil
    | @cons a a' t t' ha ht ih =>
      obtain ⟨h1, h2⟩ := pairwise_cons.mp happ
      refine pairwise_cons.mpr ⟨fun b' hb' v s hv hv' => ?_, ih h2⟩
      obtain ⟨i, hi, rfl⟩ := getElem_of_mem hb'
      have hi' : i < t.length := ht.length_eq ▸ hi
      exact h1 _ (getElem_mem hi') v s (ha.visible hc hv) ((ht.get hi' hi).visible hc hv')
  · obtain ⟨r, hr, hw⟩ := hmem r' hr'
    rw [hw.start_eq]
    exact (h.start_le r hr).trans hle
  · obtain ⟨r, hr, rfl | ⟨-, rfl⟩⟩ := hmem r' hr'
    · exact (h.stop_le r' hr).imp id fun h => h.trans hle
    · exact .inr le_rfl

omit h

lemma cons {start stop : Timestamp} {b : Bool} (h : WellFormed l c)
    (hfree : ∀ r ∈ l, r.Recorded → ∀ v, start ≤ v → v < stop → ¬ r.Holds v) :
    WellFormed (entryAt c start stop content b :: l) c := by
  refine ⟨h.valid, pairwise_cons.mpr ⟨?_, h.apart⟩, ?_, ?_⟩
  · intro r hr v s hv hv'
    rcases h.stop_le r hr with hrec | hstop
    · exact hfree r hr hrec v hv.1.1 hv.1.2 hv'.1
    · exact absurd (hv.2.1.trans_lt hv'.2.2) (not_lt.mpr hstop)
  · simp only [forall_mem_cons]
    exact ⟨le_rfl, h.start_le⟩
  · simp only [forall_mem_cons]
    exact ⟨.inl rfl, h.stop_le⟩

end WellFormed

lemma Live.mono (h : Live l lo clock) (hle : clock ≤ c) (hc : c.Valid) : Live l lo c :=
  ⟨h.toWellFormed.mono hle hc, h.head, h.covers, h.nonempty⟩

/-! ### Updates keep a timeline live -/

section Update

variable {tl : Timeline X}

lemma supersedeAll_withdrawn (vf : Timestamp) (hrec : hd.Recorded) :
    List.Forall₂ (Entry.Withdrawn c) (hd :: tl) (supersedeAll vf c (hd :: tl)) := by
  refine List.Forall₂.cons (.inr ⟨hrec, rfl⟩) ?_
  rw [forall₂_map_right_iff, forall₂_same]
  intro r _
  simp only [supersede]
  split_ifs with h
  · exact .inr ⟨h.1, rfl⟩
  · exact .inl rfl

lemma mem_supersedeAll (hc : c.Valid) (hr : r ∈ supersedeAll vf c (hd :: tl))
    (hrec : r.Recorded) : r ∈ tl ∧ ¬ r.Holds vf := by
  have hclosed : ∀ r' : Entry X, ¬ (r'.close c).Recorded := fun r' h => hc.ne_max h
  rcases mem_cons.mp hr with rfl | hr
  · exact absurd hrec (hclosed hd)
  · obtain ⟨r', hr', rfl⟩ := mem_map.mp hr
    simp only [supersede] at hrec ⊢
    split_ifs at hrec ⊢ with h
    · exact absurd hrec (hclosed r')
    · exact ⟨hr', fun hv => h ⟨hrec, hv⟩⟩

lemma mem_supersedeAll_of_mem (hr : r ∈ tl) (hv : ¬ r.Holds vf) :
    r ∈ supersedeAll vf c (hd :: tl) :=
  mem_cons_of_mem _ (mem_map.mpr ⟨r, hr, by simp [supersede, hv]⟩)

lemma free_of_updateStop (h : WellFormed (hd :: tl) clock) (hr : r ∈ tl) (hrec : r.Recorded)
    (hvf : ¬ r.Holds vf) (h1 : vf ≤ v) (h2 : v < updateStop (hd :: tl) vf) : ¬ r.Holds v := by
  intro hv
  have hrl : r ∈ hd :: tl := mem_cons_of_mem _ hr
  simp only [updateStop] at h2
  rcases hcov : covering (hd :: tl) vf with _ | p <;> simp only [hcov] at h2
  · -- a gap: every recorded entry starts after `vf` or ends before it
    have hlt : vf < r.valid.start := by
      by_contra hle
      exact hvf ⟨not_lt.mp hle, h1.trans_lt hv.2⟩
    rcases hn : nextStart (hd :: tl) vf with _ | n <;> simp only [hn, Option.getD_some] at h2
    · exact absurd (nextStart_eq_none hn hrl (Entry.isOpenSlice_of_holds hrec hv)) (not_le.mpr hlt)
    · have := (nextStart_eq_some hn).2 r hrl (Entry.isOpenSlice_of_holds hrec hv) hlt
      exact absurd h2 (not_lt.mpr (this.trans hv.1))
  · -- inside the withdrawn entry
    obtain ⟨hp, hprec, hpv⟩ := covering_eq_some hcov
    have := h.eq_of_holds hrl hp hrec hprec hv ⟨hpv.1.trans h1, h2⟩
    exact hvf (this ▸ hpv)

lemma lt_updateStop (hvf : vf.Valid) : vf < updateStop l vf := by
  simp only [updateStop]
  rcases hcov : covering l vf with _ | p <;> simp only
  · rcases hn : nextStart l vf with _ | n
    · exact hvf.lt_max
    · obtain ⟨⟨r, -, -, hlt, rfl⟩, -⟩ := nextStart_eq_some hn
      exact hlt
  · exact (covering_eq_some hcov).2.2.2

variable (h : WellFormed (hd :: tl) clock)

include h

lemma free_of_covering {p : Entry X} (hcov : covering (hd :: tl) vf = some p) (hr : r ∈ tl)
    (hrec : r.Recorded) (hvf : ¬ r.Holds vf) (hpv : p.Holds v) : ¬ r.Holds v := by
  intro hv
  obtain ⟨hp, hprec, hpvf⟩ := covering_eq_some hcov
  have := h.eq_of_holds (mem_cons_of_mem _ hr) hp hrec hprec hv hpv
  exact hvf (this ▸ hpvf)

lemma free_of_head (hhd : hd.Recorded) (hr : r ∈ tl) (hrec : r.Recorded) (hv : hd.Holds v) :
    ¬ r.Holds v := fun hv' =>
  (pairwise_cons.mp h.apart).1 r hr v clock
    (h.visible_clock mem_cons_self hhd hv)
    (h.visible_clock (mem_cons_of_mem _ hr) hrec hv')

lemma updateStop_le_head (hhd : hd.Recorded) (hopen : hd.valid.start < hd.valid.stop)
    (hlt : vf < hd.valid.start) : updateStop (hd :: tl) vf ≤ hd.valid.start := by
  simp only [updateStop]
  rcases hcov : covering (hd :: tl) vf with _ | p <;> simp only
  · rcases hn : nextStart (hd :: tl) vf with _ | n
    · exact absurd (nextStart_eq_none hn mem_cons_self
        (Entry.isOpenSlice_iff.mpr ⟨hhd, hopen⟩)) (not_le.mpr hlt)
    · exact (nextStart_eq_some hn).2 hd mem_cons_self (Entry.isOpenSlice_iff.mpr ⟨hhd, hopen⟩) hlt
  · obtain ⟨hp, hprec, hpvf⟩ := covering_eq_some hcov
    by_contra hgt
    have heq := h.eq_of_holds hp mem_cons_self hprec hhd
      (v := hd.valid.start) ⟨hpvf.1.trans hlt.le, not_le.mp hgt⟩ ⟨le_rfl, hopen⟩
    exact absurd (heq ▸ hpvf.1) (not_le.mpr hlt)

end Update

end Timeline

end Aletheia
