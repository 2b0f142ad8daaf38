import Aletheia.Tracking

/-!
# The recorded slices partition valid time

After any run of creations, updates, retractions and deletions, the still-recorded slices of an
entity are disjoint and cover exactly the valid times its status allows. The one thing a run must
not do is update an entity that is no longer in current storage: the history does not check it, and
a retracted slice that the update does not land in is then withdrawn without a successor.
-/

namespace Aletheia

open List Version

variable {K X : Type}

namespace HistoricalStorage

variable {s : Slice}

/-- The still-recorded slices: the head if it is an open slice, and the tracked others. -/
def recordedSlices (h : HistoricalStorage K X) (k : K) : List Slice :=
  (((h.heads k).bind h.sliceOf).filter fun s => isOpenSlice s.2).toList ++
    (h.openSlices k).filterMap h.sliceOf

/-- `v` is in the valid interval of a still-recorded slice. -/
def Covered (h : HistoricalStorage K X) (k : K) (v : Timestamp) : Prop :=
  ∃ s ∈ h.recordedSlices k, s.2.validTime.contains v = true

/-- What the recorded slices of an entity cover, by its status and the least valid time written. -/
def UnionIs (h : HistoricalStorage K X) (k : K) (least : Option Timestamp) : Status → Prop
  | .absent | .deleted => h.recordedSlices k = []
  | .live => ∃ lo hd, least = some lo ∧ h.heads k = some hd ∧
      (∀ v, h.Covered k v ↔ lo ≤ v ∧ v < timestampMax) ∧
      (∃ s ∈ h.recordedSlices k, s.1 = hd) ∧
      ∀ s ∈ h.recordedSlices k, s.2.validTime.isCurrent = true ↔ s.1 = hd
  | .retracted vt => ∃ lo, least = some lo ∧ ∀ v, h.Covered k v ↔ lo ≤ v ∧ v < vt

/-- The recorded slices of `k` are disjoint, cover what they must, and the non-head ones are
tracked, each once. -/
structure Partitioned (h : HistoricalStorage K X) (k : K) (status : Status)
    (least : Option Timestamp) : Prop where
  disjoint : (h.recordedSlices k).Pairwise fun a b =>
    ∀ v, a.2.validTime.contains v = true → ¬ b.2.validTime.contains v = true
  union : h.UnionIs k least status
  nodup : (h.openSlices k).Nodup
  mem_open : ∀ vid, vid ∈ h.openSlices k ↔ ∃ v, h.getVersion vid = some v ∧ v.entity = k ∧
    h.heads k ≠ some vid ∧ isOpenSlice v.temporal = true

variable {h : HistoricalStorage K X} {k : K} {l : List (Version K X)} {clock : Timestamp}

lemma mem_recordedSlices (hl : Chain h k l) :
    s ∈ h.recordedSlices k ↔ ∃ v ∈ l, isOpenSlice v.temporal = true ∧ (v.id, v.temporal) = s := by
  have hopen : s ∈ (h.openSlices k).filterMap h.sliceOf ↔
      ∃ v ∈ l.tail, isOpenSlice v.temporal = true ∧ (v.id, v.temporal) = s := by
    rw [mem_filterMap]
    constructor
    · rintro ⟨vid, hvid, hs⟩
      obtain ⟨v, hv, rfl, ho⟩ := (hl.mem_open vid).mp hvid
      rw [sliceOf, hl.stored (mem_of_mem_tail hv)] at hs
      exact ⟨v, hv, ho, Option.some.inj hs⟩
    · rintro ⟨v, hv, ho, rfl⟩
      exact ⟨v.id, (hl.mem_open v.id).mpr ⟨v, hv, rfl, ho⟩, by
        simp [sliceOf, hl.stored (mem_of_mem_tail hv)]⟩
  rw [recordedSlices, mem_append, hopen]
  cases l with
  | nil =>
    have hhead : h.heads k = none := hl.head
    simp [hhead]
  | cons hd tl =>
    have hhead : h.heads k = some hd.id := hl.head
    have hhd := hl.stored mem_cons_self
    simp only [hhead, Option.bind_some, sliceOf, hhd, Option.map_some, Option.mem_toList,
      Option.filter_eq_some_iff, Option.some.injEq, tail_cons, mem_cons, exists_eq_or_imp]
    constructor
    · rintro (⟨rfl, ho⟩ | h2)
      · exact .inl ⟨ho, rfl⟩
      · exact .inr h2
    · rintro (⟨ho, rfl⟩ | h2)
      · exact .inl ⟨rfl, ho⟩
      · exact .inr h2

lemma covered_iff (hl : Chain h k l) {v : Timestamp} :
    h.Covered k v ↔ Timeline.Covers (l.map entry) v := by
  simp only [Covered, mem_recordedSlices hl, Timeline.Covers, mem_map]
  constructor
  · rintro ⟨_, ⟨u, hu, ho, rfl⟩, hv⟩
    exact ⟨u.entry, ⟨u, hu, rfl⟩, (Entry.isOpenSlice_iff (r := u.entry) |>.mp ho).1,
      TimeRange.contains_iff.mp hv⟩
  · rintro ⟨_, ⟨u, hu, rfl⟩, hrec, hv⟩
    exact ⟨_, ⟨u, hu, Entry.isOpenSlice_of_holds hrec hv, rfl⟩, TimeRange.contains_iff.mpr hv⟩

lemma sliceOf_eq_some {vid : VersionId} (hs : h.sliceOf vid = some s) : s.1 = vid := by
  simp only [sliceOf, Option.map_eq_some_iff] at hs
  obtain ⟨v, -, rfl⟩ := hs
  rfl

lemma recordedSlices_nodup (hl : Chain h k l) : (h.recordedSlices k).Nodup := by
  refine nodup_append.mpr ⟨?_, ?_, ?_⟩
  · generalize ((h.heads k).bind h.sliceOf).filter (fun s => isOpenSlice s.2) = o
    cases o <;> simp
  · refine hl.open_nodup.filterMap fun a a' b hb hb' => ?_
    rw [← sliceOf_eq_some hb, ← sliceOf_eq_some hb']
  · intro a ha b hb heq
    subst heq
    simp only [Option.mem_toList, Option.filter_eq_some_iff, Option.bind_eq_some_iff] at ha
    obtain ⟨⟨vid, hhead, hs⟩, -⟩ := ha
    obtain ⟨vid', hvid', hs'⟩ := mem_filterMap.mp hb
    obtain rfl : vid' = vid := (sliceOf_eq_some hs').symm.trans (sliceOf_eq_some hs)
    cases l with
    | nil => exact nomatch hhead.symm.trans hl.head
    | cons hd tl =>
      obtain rfl : vid' = hd.id := Option.some.inj (hhead.symm.trans hl.head)
      exact hl.head_not_mem_open hvid'

lemma recordedSlices_disjoint (hl : Chain h k l) (hwf : Timeline.WellFormed (l.map entry) clock) :
    (h.recordedSlices k).Pairwise fun a b =>
      ∀ v, a.2.validTime.contains v = true → ¬ b.2.validTime.contains v = true := by
  refine (recordedSlices_nodup hl).pairwise_of_forall_ne fun a ha b hb hne v hav hbv => ?_
  obtain ⟨u, hu, huo, rfl⟩ := (mem_recordedSlices hl).mp ha
  obtain ⟨w, hw, hwo, rfl⟩ := (mem_recordedSlices hl).mp hb
  have heq := coveringVersion_unique hwf hu hw (Entry.isOpenSlice_iff (r := u.entry) |>.mp huo).1
    (Entry.isOpenSlice_iff (r := w.entry) |>.mp hwo).1 (TimeRange.contains_iff.mp hav)
    (TimeRange.contains_iff.mp hbv)
  exact hne (by rw [heq])

lemma mem_openSlices_iff (hcons : h.Consistent) (hl : Chain h k l) (vid : VersionId) :
    vid ∈ h.openSlices k ↔ ∃ v, h.getVersion vid = some v ∧ v.entity = k ∧
      h.heads k ≠ some vid ∧ isOpenSlice v.temporal = true := by
  rw [hl.mem_open]
  constructor
  · rintro ⟨v, hv, rfl, ho⟩
    have hvl := mem_of_mem_tail hv
    refine ⟨v, hl.stored hvl, hl.entity_eq hvl, fun hhead => ?_, ho⟩
    cases l with
    | nil => exact absurd hv not_mem_nil
    | cons hd tl =>
      rw [hl.head] at hhead
      exact (nodup_cons.mp hl.nodup).1 (mem_map.mpr ⟨v, hv, (Option.some.inj hhead).symm⟩)
  · rintro ⟨v, hv, he, hhead, ho⟩
    obtain rfl := hcons vid v hv
    have hvl := (hl.mem v).mpr ⟨hv, he⟩
    cases l with
    | nil => exact absurd hvl not_mem_nil
    | cons hd tl =>
      rcases mem_cons.mp hvl with rfl | hvl
      · exact absurd hl.head hhead
      · exact ⟨v, hvl, rfl, ho⟩

lemma isCurrent_iff_head {hd : Version K X} {tl : List (Version K X)} {lo : Timestamp}
    (hl : Chain h k (hd :: tl)) (hlive : Timeline.Live ((hd :: tl).map entry) lo clock)
    (hs : s ∈ h.recordedSlices k) : s.2.validTime.isCurrent = true ↔ s.1 = hd.id := by
  obtain ⟨v, hv, ho, rfl⟩ := (mem_recordedSlices hl).mp hs
  obtain ⟨hrec, hstart, hstop⟩ := hlive.head_cons
  obtain ⟨hvrec, hvne⟩ := Entry.isOpenSlice_iff (r := v.entry) |>.mp ho
  constructor
  · intro hcur
    have hvstop : v.temporal.validTime.stop = timestampMax := TimeRange.isCurrent_iff.mp hcur
    -- two open-ended slices would meet at the later of their starts
    have heq := coveringVersion_unique (t := max v.temporal.validTime.start
      hd.temporal.validTime.start) hlive.toWellFormed hv mem_cons_self hvrec hrec
      ⟨le_max_left _ _, max_lt hvne ((hstart.lt_max).trans_eq hvstop.symm)⟩
      ⟨le_max_right _ _, max_lt ((hvne.trans_eq hvstop).trans_eq hstop.symm)
        (hstart.lt_max.trans_eq hstop.symm)⟩
    rw [heq]
  · intro hid
    rw [hl.eq_of_id hv mem_cons_self hid]
    exact TimeRange.isCurrent_iff.mpr hstop

lemma recordedSlices_eq_nil (hl : Chain h k l)
    (hcov : ∀ v, ¬ Timeline.Covers (l.map entry) v) : h.recordedSlices k = [] := by
  refine eq_nil_iff_forall_not_mem.mpr fun s hs => ?_
  obtain ⟨v, hv, ho, rfl⟩ := (mem_recordedSlices hl).mp hs
  obtain ⟨hrec, hne⟩ := Entry.isOpenSlice_iff (r := v.entry) |>.mp ho
  exact hcov v.temporal.validTime.start ⟨v.entry, mem_map_of_mem hv, hrec, le_rfl, hne⟩

/-- **From the status to the slices.** -/
lemma partitioned_of_reflects {st : Status} {least : Option Timestamp} {cur : Option (Entity X)}
    (hcons : h.Consistent) (hl : Chain h k l) (hc : clock.Valid)
    (href : Reflects clock st least cur l) : h.Partitioned k st least where
  disjoint := recordedSlices_disjoint hl (href.wellFormed (p := (st, least)) hc)
  nodup := hl.open_nodup
  mem_open := mem_openSlices_iff hcons hl
  union := by
    cases href with
    | absent => exact recordedSlices_eq_nil hl fun v ⟨r, hr, _⟩ => absurd hr not_mem_nil
    | @live lo x hd tl _ hlive =>
      obtain ⟨hrec, hstart, hstop⟩ := hlive.head_cons
      have hopen : isOpenSlice hd.temporal = true :=
        (Entry.isOpenSlice_iff (r := hd.entry)).mpr ⟨hrec, hstop ▸ hstart.lt_max⟩
      exact ⟨lo, hd.id, rfl, hl.head, fun v => (covered_iff hl).trans (hlive.covers v),
        ⟨_, (mem_recordedSlices hl).mpr ⟨hd, mem_cons_self, hopen, rfl⟩, rfl⟩,
        fun s hs => isCurrent_iff_head hl hlive hs⟩
    | @retracted lo vt _ _ _ hcov => exact ⟨lo, rfl, fun v => (covered_iff hl).trans (hcov v)⟩
    | deleted _ _ hcov => exact recordedSlices_eq_nil hl hcov

end HistoricalStorage

variable [DecidableEq K] [EntityKind K X]

/-- **The recorded slices partition valid time** after every run in which each update is of an
entity that is in current storage. -/
theorem slices_partition (maxVersions gen : ℕ) (indexLimit : Option ℕ) (vs : List VectorIndex)
    (start : ValidTimestamp) (ws : List (CommittedWrite K X)) (s : EntityStore K X)
    (clock : Timestamp) (hlive : UpdatesLive (.init maxVersions indexLimit vs gen) ws)
    (hrun : runFrom (.init maxVersions indexLimit vs gen) start ws = some (s, clock)) (k : K) :
    s.history.Partitioned k (statusOf ws k) (leastValidFrom ws k) := by
  obtain ⟨hc, htr⟩ := tracked_runFrom ws (fun k => tracked_init k) start.property hlive hrun
  obtain ⟨l, hr, href⟩ := htr k
  exact HistoricalStorage.partitioned_of_reflects hr.consistent hr.chain hc href

/-- A node is created from 0 on, retracted as of 10, and then updated from 20 on. -/
def retractThenUpdate : List (CommittedWrite NodeId Unit) :=
  [⟨⟨1⟩, .ofWallclock 1, .create ⟨0⟩ (.ofWallclock 0) ⟨0, ∅, (), none⟩⟩,
    ⟨⟨2⟩, .ofWallclock 2, .retract ⟨0⟩ (.ofWallclock 10) none⟩,
    ⟨⟨3⟩, .ofWallclock 3, .update ⟨0⟩ (.ofWallclock 20) ⟨0, ∅, (), none⟩⟩]

/-- The update of a retracted node withdraws the retracted slice: nothing covers `[0, 20)` any
more, although 0 was the least valid time written. -/
theorem slices_not_partitioned_after_retraction :
    ∃ s clock, runFrom (.init 1000 (some 1000000) [] 0) ⟨0, 0⟩ retractThenUpdate = some (s, clock) ∧
      ¬ s.history.Partitioned ⟨0⟩ (statusOf retractThenUpdate ⟨0⟩)
        (leastValidFrom retractThenUpdate ⟨0⟩) := by
  have hslices : ((runFrom (.init 1000 (some 1000000) [] 0) ⟨0, 0⟩ retractThenUpdate).map
      fun r => r.1.history.recordedSlices ⟨0⟩) =
      some [(.new 2, .withValidTime ⟨20, 0⟩ ⟨3, 0⟩)] := by
    decide +kernel
  rcases hrun : runFrom (.init 1000 (some 1000000) [] 0) ⟨0, 0⟩ retractThenUpdate with _ | ⟨s, clock⟩
  · rw [hrun] at hslices
    cases hslices
  · rw [hrun, Option.map_some, Option.some.injEq] at hslices
    refine ⟨s, clock, rfl, fun hp => ?_⟩
    obtain ⟨lo, _, hlo, -, hcov, -⟩ := hp.union
    obtain rfl : (⟨0, 0⟩ : Timestamp) = lo := Option.some.inj hlo
    obtain ⟨sl, hsl, hin⟩ := (hcov ⟨5, 0⟩).mpr (by decide)
    rw [hslices, mem_singleton] at hsl
    rw [hsl] at hin
    exact absurd hin (by decide)

def backfillThenRetract : List (CommittedWrite NodeId Unit) :=
  [⟨⟨1⟩, .ofWallclock 1, .create ⟨0⟩ (.ofWallclock 10) ⟨0, ∅, (), none⟩⟩,
    ⟨⟨2⟩, .ofWallclock 2, .update ⟨0⟩ (.ofWallclock 5) ⟨1, ∅, (), none⟩⟩,
    ⟨⟨3⟩, .ofWallclock 3, .retract ⟨0⟩ (.ofWallclock 20) none⟩]

theorem slices_partition_backfill :
    ∃ s clock, runFrom (.init 1000 (some 1000000) [] 0) ⟨0, 0⟩ backfillThenRetract =
        some (s, clock) ∧
      s.history.Partitioned ⟨0⟩ (.retracted ⟨20, 0⟩) (some ⟨5, 0⟩) := by
  have hsome : (runFrom (.init 1000 (some 1000000) [] 0) ⟨0, 0⟩ backfillThenRetract).isSome =
    true := by decide +kernel
  obtain ⟨⟨s, clock⟩, hrun⟩ := Option.isSome_iff_exists.mp hsome
  exact ⟨s, clock, hrun, slices_partition 1000 0 (some 1000000) [] ⟨⟨0, 0⟩, by decide⟩
    backfillThenRetract s clock (by decide +kernel) hrun ⟨0⟩⟩

end Aletheia
