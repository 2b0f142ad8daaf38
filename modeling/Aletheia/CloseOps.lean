import Aletheia.EntityOps

/-!
# Deleting and retracting, on the timeline

A delete withdraws every recorded slice and appends a tombstone; a retraction withdraws the head
and appends a copy with a bounded valid interval.
-/

namespace Aletheia.HistoricalStorage

open Function List Version

variable {K X : Type} {e : K} {h h' : HistoricalStorage K X} {hd : Version K X}
  {tl l l' : List (Version K X)} {vf vt c lo clock : Timestamp} {vid : VersionId}
  {content : Content X}

/-! ### Delete -/

section Close

variable (hl : Chain h e (hd :: tl))
  (hlive : Timeline.Live ((hd :: tl).map Version.entry) lo clock)

include hl hlive

lemma mem_slices {v : Version K X} (hv : v ∈ hd :: tl) (hrec : v.entry.Recorded) :
    v.id ∈ h.openSlices e ++ (h.heads e).toList := by
  have hhead : h.heads e = some hd.id := hl.head
  rw [hhead, mem_append, Option.toList_some, mem_singleton]
  rcases mem_cons.mp hv with rfl | hv
  · exact .inr rfl
  · refine .inl ((hl.mem_open v.id).mpr ⟨v, hv, rfl, ?_⟩)
    exact (Entry.isOpenSlice_iff (r := v.entry)).mpr
      ⟨hrec, hlive.nonempty _ (mem_map_of_mem (mem_cons_of_mem _ hv)) hrec⟩

variable [DecidableEq K]

lemma run_closeAllSlices (hcons : h.Consistent) (hle : clock ≤ c) (hc : c.Valid) :
    ∃ h', (closeAllSlices e c).run h = .ok () h' ∧
      Evolves e h h' ((hd :: tl).map fun v => if v.entry.Recorded then v.close c else v) ∧
      (Indexed h e (hd :: tl) →
        Indexed h' e ((hd :: tl).map fun v => if v.entry.Recorded then v.close c else v)) := by
  have hstart : ∀ v ∈ hd :: tl, v.temporal.transactionTime.start ≤ c := fun v hv =>
    (hlive.start_le _ (mem_map_of_mem hv)).trans hle
  have hids : ∀ vid ∈ h.openSlices e ++ (h.heads e).toList, ∃ v ∈ hd :: tl, v.id = vid := by
    intro vid hvid
    rcases mem_append.mp hvid with hin | hin
    · obtain ⟨v, hv, hid, -⟩ := (hl.mem_open vid).mp hin
      exact ⟨v, mem_cons_of_mem _ hv, hid⟩
    · have hhead : h.heads e = some hd.id := hl.head
      rw [hhead] at hin
      exact ⟨hd, mem_cons_self, (mem_singleton.mp hin).symm⟩
  obtain ⟨h', hrun, hev, hix⟩ := each_closeIfRecorded hc _ hcons hl hstart hids
  have hmap : (hd :: tl).map (closeIds (h.openSlices e ++ (h.heads e).toList) c) =
      (hd :: tl).map fun v => if v.entry.Recorded then v.close c else v := by
    refine map_congr_left fun v hv => ?_
    by_cases hrec : v.entry.Recorded
    · rw [closeIds, if_pos ⟨mem_slices hl hlive hv hrec, hrec⟩, if_pos hrec]
    · rw [closeIds, if_neg (fun hn => hrec hn.2), if_neg hrec]
  rw [hmap] at hev hix
  exact ⟨h', by rw [closeAllSlices, Exec.run_bind_of_ok Exec.run_get, hrun], hev, hix⟩

end Close

lemma settled_closeAll (hc : c.Valid) :
    Settled c ((l.map fun v => if v.entry.Recorded then v.close c else v).map record) := by
  intro r hr
  cases l with
  | nil => cases hr
  | cons v tl =>
    simp only [map_cons, List.head?_cons, Option.some.injEq] at hr
    subst hr
    split_ifs with hrec
    · exact fun hn => hc.ne_max hn.1
    · exact fun hn => hrec hn.1

lemma ids_closeAll :
    (l.map fun v => if v.entry.Recorded then v.close c else v).map (·.id) = l.map (·.id) := by
  rw [map_map]
  refine map_congr_left fun v _ => ?_
  simp only [comp_apply]
  split_ifs <;> rfl

lemma closeAll_eq : (l.map fun v => if v.entry.Recorded then v.close c else v) =
    l.map (closeIds (l.map (·.id)) c) := by
  refine map_congr_left fun v hv => ?_
  have hid : v.id ∈ l.map (·.id) := mem_map_of_mem hv
  simp only [closeIds, hid, true_and]

lemma map_closeAll_entry : (l.map fun v => if v.entry.Recorded then v.close c else v).map entry =
      (l.map entry).map fun r => if r.Recorded then r.close c else r := by
  rw [map_map, map_map]
  refine map_congr_left fun v _ => ?_
  simp only [comp_apply]
  split_ifs <;> rfl

variable [DecidableEq K]

lemma addVersion_tombstone (vid : VersionId) (content : Content X) (hcons : h.Consistent)
    (hl : Chain h e l) (hsettled : Settled c (l.map record)) (hvf : vf.Valid)
    (hcap : h.logicalVersionCount e < h.maxVersionsPerEntity) (hfresh : h.getVersion vid = none) :
    ∃ h' l', addVersion e vid vf c content true h = .ok h' ∧ Evolves e h h' l' ∧
      l'.map record = ⟨vid, ⟨⟨vf, vf⟩, .fromStart c⟩, content⟩ :: l.map record ∧
      h'.indexOf e = h.indexOf e := by
  obtain ⟨h', l', hadd, hev, hrec, hix⟩ := addVersionWithInterval_record vid
    ⟨⟨vf, vf⟩, .fromStart c⟩ content hcons hl (fun _ => hcap) hfresh hsettled
  refine ⟨h', l', ?_, hev, hrec, hix⟩
  simp only [addVersion, if_true,
    BiTemporalInterval.withValidTime_closeValidTime (le_refl vf) hvf, hadd]

/-! ### Retract -/

lemma addRetractedVersion_record (vid : VersionId) (content : Content X) (hcons : h.Consistent)
    (hl : Chain h e l) (hsettled : Settled c (l.map record)) (hle : vf ≤ vt) (hvt : vt.Valid)
    (hcap : h.logicalVersionCount e < h.maxVersionsPerEntity) (hfresh : h.getVersion vid = none) :
    ∃ h' l', addRetractedVersion e vid vf vt c content h = .ok h' ∧ Evolves e h h' l' ∧
      l'.map record = ⟨vid, ⟨⟨vf, vt⟩, .fromStart c⟩, content⟩ :: l.map record ∧
      h'.indexOf e = h.indexOf e := by
  obtain ⟨h', l', hadd, hev, hrec, hix⟩ := addVersionWithInterval_record vid
    ⟨⟨vf, vt⟩, .fromStart c⟩ content hcons hl (fun _ => hcap) hfresh hsettled
  refine ⟨h', l', ?_, hev, hrec, hix⟩
  simp only [addRetractedVersion, BiTemporalInterval.withValidTime_closeValidTime hle hvt, hadd]

omit [DecidableEq K] in
lemma map_closeId_head (hl : Chain h e (hd :: tl)) :
    (hd :: tl).map (·.closeId hd.id c) = hd.close c :: tl := by
  rw [map_cons, closeId_of_eq rfl]
  congr 1
  refine (map_congr_left fun v hv => ?_).trans (map_id tl)
  refine closeId_of_ne fun heq => ?_
  exact (nodup_cons.mp hl.nodup).1 (mem_map.mpr ⟨v, hv, heq⟩)

omit [DecidableEq K] in
lemma close_head_eq (hl : Chain h e (hd :: tl)) (hrec : hd.entry.Recorded) :
    hd.close c :: tl = (hd :: tl).map (closeIds [hd.id] c) := by
  rw [← map_closeId_head hl]
  refine map_congr_left fun v hv => ?_
  by_cases heq : v.id = hd.id
  · obtain rfl := hl.eq_of_id hv mem_cons_self heq
    simp [closeIds, closeId, hrec]
  · simp [closeIds, closeId, heq]

omit [DecidableEq K] in
lemma settled_close_head (hc : c.Valid) : Settled c ((hd.close c :: tl).map record) := by
  intro r hr
  cases hr
  exact fun hn => hc.ne_max hn.1

end Aletheia.HistoricalStorage
