import Aletheia.ChainOps

/-!
# What the planner plans

On the chain of a live entity the recorded slices do not overlap, so the order in which the
planner scans them does not matter: the plan it computes is determined by the timeline.
-/

namespace Aletheia.HistoricalStorage

open List Version Timeline

variable {K X : Type} {e : K} {h : HistoricalStorage K X}
  {hd : Version K X} {tl l : List (Version K X)} {vf c lo clock : Timestamp} {v : Version K X}

/-- The recorded version that holds at `vf`. -/
def coveringVersion (l : List (Version K X)) (vf : Timestamp) : Option (Version K X) :=
  l.find? fun v => v.entry.Recorded ∧ v.entry.Holds vf

lemma covering_map_entry : covering (l.map entry) vf = (coveringVersion l vf).map entry := by
  simp only [covering, coveringVersion, List.find?_map]
  rfl

lemma coveringVersion_eq_some {p : Version K X} (hp : coveringVersion l vf = some p) :
    p ∈ l ∧ p.entry.Recorded ∧ p.entry.Holds vf := by
  have := List.find?_some hp
  exact ⟨mem_of_find?_eq_some hp, by simpa using this⟩

lemma coveringVersion_eq_none (hp : coveringVersion l vf = none) (hv : v ∈ l)
    (hrec : v.entry.Recorded) : ¬ v.entry.Holds vf := by
  have := List.find?_eq_none.mp hp v hv
  simpa [hrec] using this

/-! ### The scan -/

/-- The starts after `vf` among the open slices. -/
def startsAfter (vf : Timestamp) (slices : List Slice) : List Timestamp :=
  (slices.filter fun s => isOpenSlice s.2 ∧ vf < s.2.validTime.start).map (·.2.validTime.start)

/-- The scan stops at an open slice that contains `vf`, or has taken the least start after it. -/
lemma scanSlices_spec (vf : Timestamp) (slices : List Slice) : ∀ n : Timestamp,
    (∃ s ∈ slices, isOpenSlice s.2 = true ∧ s.2.validTime.contains vf = true ∧
      (scanSlices vf (some n) slices).1 = some s) ∨
    ((∀ s ∈ slices, isOpenSlice s.2 = true → ¬ s.2.validTime.contains vf = true) ∧
      scanSlices vf (some n) slices = (none, (n :: startsAfter vf slices).min?)) := by
  induction slices with
  | nil => intro n; exact .inr ⟨by simp, rfl⟩
  | cons s rest ih =>
    intro n
    simp only [scanSlices]
    by_cases ho : isOpenSlice s.2 = true
    · rw [if_pos ho]
      by_cases hin : s.2.validTime.contains vf = true
      · rw [if_pos hin]
        exact .inl ⟨s, mem_cons_self, ho, hin, rfl⟩
      · rw [if_neg hin]
        by_cases hlt : vf < s.2.validTime.start
        · -- a later slice: its start is a candidate for the end of the new version
          rw [if_pos hlt]
          rcases ih (min n s.2.validTime.start) with ⟨u, hu, h1, h2, h3⟩ | ⟨h1, h2⟩
          · exact .inl ⟨u, mem_cons_of_mem _ hu, h1, h2, h3⟩
          · refine .inr ⟨forall_mem_cons.mpr ⟨fun _ => hin, h1⟩, ?_⟩
            have hstarts : startsAfter vf (s :: rest) =
                s.2.validTime.start :: startsAfter vf rest := by simp [startsAfter, ho, hlt]
            simp only [Option.elim_some, h2, hstarts, List.min?_cons', foldl_cons]
        · rw [if_neg hlt]
          rcases ih n with ⟨u, hu, h1, h2, h3⟩ | ⟨h1, h2⟩
          · exact .inl ⟨u, mem_cons_of_mem _ hu, h1, h2, h3⟩
          · refine .inr ⟨forall_mem_cons.mpr ⟨fun _ => hin, h1⟩, ?_⟩
            rw [h2]
            simp [startsAfter, hlt]
    · rw [if_neg ho]
      rcases ih n with ⟨u, hu, h1, h2, h3⟩ | ⟨h1, h2⟩
      · exact .inl ⟨u, mem_cons_of_mem _ hu, h1, h2, h3⟩
      · refine .inr ⟨forall_mem_cons.mpr ⟨fun h => absurd h ho, h1⟩, ?_⟩
        rw [h2]
        simp [startsAfter, ho]

/-! ### The slices of a chain -/

lemma sliceOf_eq (hl : Chain h e l) (hv : v ∈ l) : h.sliceOf v.id = some (v.id, v.temporal) := by
  simp [sliceOf, hl.stored hv]

lemma mem_otherSlices (hl : Chain h e (hd :: tl)) (s : Slice) :
    s ∈ (h.openSlices e).filterMap h.sliceOf ↔
      ∃ v ∈ tl, isOpenSlice v.temporal = true ∧ s = (v.id, v.temporal) := by
  simp only [mem_filterMap]
  constructor
  · rintro ⟨vid, hvid, hs⟩
    obtain ⟨v, hv, rfl, ho⟩ := (hl.mem_open vid).mp hvid
    rw [sliceOf_eq hl (mem_cons_of_mem _ hv)] at hs
    exact ⟨v, hv, ho, (Option.some.inj hs).symm⟩
  · rintro ⟨v, hv, ho, rfl⟩
    exact ⟨v.id, (hl.mem_open v.id).mpr ⟨v, hv, rfl, ho⟩, sliceOf_eq hl (mem_cons_of_mem _ hv)⟩

lemma min?_congr {a b : List Timestamp} (hab : ∀ t, t ∈ a ↔ t ∈ b) : a.min? = b.min? := by
  rcases hb : b.min? with _ | n
  · rw [List.min?_eq_none_iff] at hb ⊢
    subst hb
    exact eq_nil_iff_forall_not_mem.mpr fun t ht => not_mem_nil ((hab t).mp ht)
  · rw [List.min?_eq_some_iff] at hb ⊢
    exact ⟨(hab n).mpr hb.1, fun t ht => hb.2 t ((hab t).mp ht)⟩

lemma nextStart_map_entry (hl : Chain h e (hd :: tl)) (ho : isOpenSlice hd.temporal = true)
    (hlt : vf < hd.temporal.validTime.start) : nextStart ((hd :: tl).map entry) vf =
      (hd.temporal.validTime.start ::
        startsAfter vf ((h.openSlices e).filterMap h.sliceOf)).min? := by
  refine min?_congr fun t => ?_
  simp only [startsAfter, mem_map, mem_filter, decide_eq_true_eq, mem_cons, mem_otherSlices hl]
  constructor
  · rintro ⟨_, ⟨⟨v, rfl | hv, rfl⟩, hvo, hvlt⟩, rfl⟩
    · exact .inl rfl
    · exact .inr ⟨_, ⟨⟨v, hv, hvo, rfl⟩, hvo, hvlt⟩, rfl⟩
  · rintro (rfl | ⟨_, ⟨⟨v, hv, -, rfl⟩, hvo, hvlt⟩, rfl⟩)
    · exact ⟨_, ⟨⟨hd, .inl rfl, rfl⟩, ho, hlt⟩, rfl⟩
    · exact ⟨_, ⟨⟨v, .inr hv, rfl⟩, hvo, hvlt⟩, rfl⟩

/-- The plan that the timeline of a live entity determines. -/
def livePlan (hd : Version K X) (tl : List (Version K X)) (vf : Timestamp) : UpdatePlan :=
  let cov := coveringVersion (hd :: tl) vf
  let stop := Timeline.updateStop ((hd :: tl).map Version.entry) vf
  { predecessor := cov.map (·.id)
    carryFrom := (cov.map (·.temporal.validTime.start)).filter (· < vf)
    newValidTo := if stop = timestampMax then none else some stop
    reassert := if vf < hd.temporal.validTime.start then some hd.id else none }

lemma plan_ahead (hl : Chain h e (hd :: tl)) (ho : isOpenSlice hd.temporal = true)
    (hstop : hd.temporal.validTime.stop = timestampMax)
    (hin : hd.temporal.validTime.contains vf = true) :
    h.planEntityUpdate e vf =
      { predecessor := some hd.id
        carryFrom := (some hd.temporal.validTime.start).filter (· < vf)
        newValidTo := none
        reassert := none } := by
  have hhead : h.heads e = some hd.id := hl.head
  simp [planEntityUpdate, planUpdate, hhead, sliceOf_eq hl mem_cons_self, Option.filter, ho,
    hin, hstop]

section Backfill

variable (hl : Chain h e (hd :: tl)) (ho : isOpenSlice hd.temporal = true)
  (hstop : hd.temporal.validTime.stop = timestampMax) (hlt : vf < hd.temporal.validTime.start)

include hlt in
lemma head_not_contains : hd.temporal.validTime.contains vf = false := by
  rw [Bool.eq_false_iff]
  intro hin
  exact absurd (TimeRange.contains_iff.mp hin).1 (not_le.mpr hlt)

include hl ho hstop hlt

lemma plan_backfill_some {s : Slice} {n : Option Timestamp}
    (hscan : scanSlices vf (some hd.temporal.validTime.start)
      ((h.openSlices e).filterMap h.sliceOf) = (some s, n))
    (hs : s.2.validTime.stop ≠ timestampMax) (hne : s.1 ≠ hd.id) :
    h.planEntityUpdate e vf =
      { predecessor := some s.1
        carryFrom := (some s.2.validTime.start).filter (· < vf)
        newValidTo := some s.2.validTime.stop
        reassert := some hd.id } := by
  have hhead : h.heads e = some hd.id := hl.head
  simp [planEntityUpdate, planUpdate, hhead, sliceOf_eq hl mem_cons_self, Option.filter, ho,
    head_not_contains hlt, hstop, scanSlices, hlt, hscan, hne, TimeRange.isCurrent, hs]

lemma plan_backfill_none {n : Timestamp}
    (hscan : scanSlices vf (some hd.temporal.validTime.start)
      ((h.openSlices e).filterMap h.sliceOf) = (none, some n)) :
    h.planEntityUpdate e vf =
      { predecessor := none, carryFrom := none, newValidTo := some n, reassert := some hd.id } := by
  have hhead : h.heads e = some hd.id := hl.head
  simp [planEntityUpdate, planUpdate, hhead, sliceOf_eq hl mem_cons_self, Option.filter, ho,
    head_not_contains hlt, hstop, scanSlices, hlt, hscan]

end Backfill

/-! ### The plan of a live entity -/

variable (hwf : Timeline.WellFormed (l.map Version.entry) clock)

include hwf

lemma coveringVersion_unique {v w : Version K X} (hv : v ∈ l) (hw : w ∈ l) (hvr : v.entry.Recorded)
    (hwr : w.entry.Recorded) {t : Timestamp} (hvt : v.entry.Holds t) (hwt : w.entry.Holds t) :
    v = w := by
  by_contra hne
  have hpw := pairwise_map.mp hwf.apart
  have hsym : ∀ a ∈ l, ∀ b ∈ l, a ≠ b → a.entry.Apart b.entry := by
    have : Std.Symm fun a b : Version K X => a.entry.Apart b.entry := ⟨fun _ _ h => h.symm⟩
    exact fun a ha b hb hab => hpw.forall ha hb hab
  exact hsym v hv w hw hne t clock
    (hwf.visible_clock (mem_map_of_mem hv) hvr hvt)
    (hwf.visible_clock (mem_map_of_mem hw) hwr hwt)

lemma coveringVersion_of_holds (hv : v ∈ l) (hrec : v.entry.Recorded) (hvf : v.entry.Holds vf) :
    coveringVersion l vf = some v := by
  rcases hcov : coveringVersion l vf with _ | p
  · exact absurd hvf (coveringVersion_eq_none hcov hv hrec)
  · obtain ⟨hp, hprec, hpv⟩ := coveringVersion_eq_some hcov
    rw [coveringVersion_unique hwf hv hp hrec hprec hvf hpv]

omit hwf

/-- **The planner's answer** for a live entity. -/
theorem planEntityUpdate_eq (hl : Chain h e (hd :: tl))
    (hlive : Timeline.Live ((hd :: tl).map entry) lo clock) (hvf : vf.Valid) :
    h.planEntityUpdate e vf = livePlan hd tl vf := by
  obtain ⟨hrec, hstart, hstop⟩ := hlive.head_cons
  have hwf := hlive.toWellFormed
  have ho : isOpenSlice hd.temporal = true :=
    (Entry.isOpenSlice_iff (r := hd.entry)).mpr ⟨hrec, hstop ▸ hstart.lt_max⟩
  rcases le_or_gt hd.temporal.validTime.start vf with hle | hlt
  · -- an ordinary update: the head covers `vf`
    have hholds : hd.entry.Holds vf := ⟨hle, hstop ▸ hvf.lt_max⟩
    have hcov := coveringVersion_of_holds hwf mem_cons_self hrec hholds
    have hst := (updateStop_eq hwf (mem_map_of_mem mem_cons_self) hrec hholds).2
    rw [plan_ahead hl ho hstop (TimeRange.contains_iff.mpr hholds)]
    simp only [livePlan, hcov, hst, hstop, if_true, if_neg (not_lt.mpr hle), Option.map_some]
  · rcases scanSlices_spec vf ((h.openSlices e).filterMap h.sliceOf)
        hd.temporal.validTime.start with ⟨s, hs, hso, hsin, hscan⟩ | ⟨hnone, hscan⟩
    · -- the slice that covers `vf` ends before the head begins
      obtain ⟨p, hp, hpo, rfl⟩ := (mem_otherSlices hl s).mp hs
      have hprec := (Entry.isOpenSlice_iff (r := p.entry).mp hpo).1
      have hholds : p.entry.Holds vf := TimeRange.contains_iff.mp hsin
      have hpl : p ∈ hd :: tl := mem_cons_of_mem _ hp
      have hcov := coveringVersion_of_holds hwf hpl hprec hholds
      have hst := (updateStop_eq hwf (mem_map_of_mem hpl) hprec hholds).2
      have hle := updateStop_le_head hwf hrec (hstop ▸ hstart.lt_max) hlt
      have hpstop : p.temporal.validTime.stop ≠ timestampMax :=
        ((hst.symm.le.trans hle).trans_lt hstart.lt_max).ne
      have hne : p.id ≠ hd.id := fun hid =>
        (nodup_cons.mp hl.nodup).1 (mem_map.mpr ⟨p, hp, hid⟩)
      rw [plan_backfill_some hl ho hstop hlt (Prod.ext hscan rfl) hpstop hne]
      simp only [livePlan, hcov, hst, if_neg hpstop, if_pos hlt, Option.map_some,
        entry, Entry.valid]
    · -- no slice covers `vf`
      have hcov : coveringVersion (hd :: tl) vf = none := by
        rcases hcov : coveringVersion (hd :: tl) vf with _ | p
        · rfl
        · obtain ⟨hp, hprec, hpv⟩ := coveringVersion_eq_some hcov
          rcases mem_cons.mp hp with rfl | hp
          · exact absurd hpv.1 (not_le.mpr hlt)
          · have hpo := Entry.isOpenSlice_of_holds hprec hpv
            exact absurd (TimeRange.contains_iff.mpr hpv)
              (hnone _ ((mem_otherSlices hl _).mpr ⟨p, hp, hpo, rfl⟩) hpo)
      rw [← nextStart_map_entry hl ho hlt] at hscan
      have hle := updateStop_le_head hwf hrec (hstop ▸ hstart.lt_max) hlt
      have hst : updateStop ((hd :: tl).map entry) vf =
          (nextStart ((hd :: tl).map entry) vf).getD timestampMax := by
        simp only [updateStop, covering_map_entry, hcov, Option.map_none]
      rcases hn : nextStart ((hd :: tl).map entry) vf with _ | n
      · exact absurd (nextStart_eq_none hn (mem_map_of_mem mem_cons_self) ho) (not_le.mpr hlt)
      · rw [hn] at hscan hst
        have hne : n ≠ timestampMax := ((hst.symm.le.trans hle).trans_lt hstart.lt_max).ne
        rw [plan_backfill_none hl ho hstop hlt hscan]
        simp only [livePlan, hcov, hst, Option.getD_some, if_neg hne, if_pos hlt, Option.map_none,
          Option.filter_none]

end Aletheia.HistoricalStorage
