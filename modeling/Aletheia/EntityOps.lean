import Aletheia.UpdatePlan

/-!
# The writes of an entity, on its timeline

Each write of the store (create, update, delete, retract) succeeds on the chain of an entity in the
right state and takes its timeline to what the timeline operation of the same name says. Links
aside, the new chain is given version by version.
-/

namespace Aletheia

open Exec List Version Timeline

variable {K X : Type}

/-- A version without its entity and links. -/
structure Record (X : Type) where
  id : VersionId
  temporal : BiTemporalInterval
  content : Content X

namespace Record

def entry (r : Record X) : Entry X := ⟨r.temporal, r.content, r.id.isStructural⟩
def indexEntry (r : Record X) : IndexEntry := ⟨r.id, r.temporal⟩
def slice (r : Record X) : Slice := (r.id, r.temporal)

end Record

def Version.record (v : Version K X) : Record X := ⟨v.id, v.temporal, v.content⟩

namespace HistoricalStorage

variable {e : K} {h h' : HistoricalStorage K X} {hd : Version K X}
  {tl l l' : List (Version K X)} {vf vt c lo clock : Timestamp} {vid cid rid : VersionId}
  {t : BiTemporalInterval} {content : Content X} {rs : List (Record X)}

lemma map_entry_eq : l.map entry = (l.map record).map Record.entry := by
  rw [map_map]
  rfl

lemma map_id_eq : l.map (·.id) = (l.map record).map (·.id) := by
  rw [map_map]
  rfl

lemma map_indexEntry_eq : l.map Version.indexEntry = (l.map record).map Record.indexEntry := by
  rw [map_map]
  rfl

@[simp] lemma linkHead_map_record : (linkHead vid l).map record = l.map record := by
  cases l <;> rfl

lemma Evolves.fresh (hev : Evolves e h h' l) (hfresh : h.getVersion vid = none)
    (hnot : vid ∉ l.map (·.id)) : h'.getVersion vid = none := by
  rcases hget : h'.getVersion vid with _ | w
  · rfl
  · exfalso
    have hid := hev.consistent vid w hget
    by_cases hw : w.entity = e
    · exact hnot (mem_map.mpr ⟨w, (hev.chain.mem w).mpr ⟨hid ▸ hget, hw⟩, hid⟩)
    · rw [((hev.frame w.entity hw).versions vid w rfl).mp hget] at hfresh
      cases hfresh

lemma Chain.countP_record (hl : Chain h e l) :
    h.logicalVersionCount e = (l.map record).countP (fun r => !r.id.isStructural) := by
  rw [hl.logicalVersionCount, countP_map]
  rfl

lemma Chain.logicalVersionCount_of_ids (hl' : Chain h' e l') (hl : Chain h e l)
    (hids : l'.map (·.id) = l.map (·.id)) : h'.logicalVersionCount e = h.logicalVersionCount e := by
  have hcount : ∀ m : List (Version K X), m.countP (fun v => !v.id.isStructural) =
      (m.map (·.id)).countP (fun id => !id.isStructural) := fun m => by
    rw [countP_map]
    rfl
  rw [hl'.logicalVersionCount, hl.logicalVersionCount, hcount, hcount, hids]

variable [DecidableEq K]

/-- The newest version is closed or of commit `c`, so that appending at `c` does not close it. -/
def Settled (c : Timestamp) (l : List (Record X)) : Prop :=
  ∀ r, l.head? = some r → ¬ (r.entry.Recorded ∧ r.entry.tx.start < c)

lemma addVersionWithInterval_record (vid : VersionId) (t : BiTemporalInterval) (content : Content X)
    (hcons : h.Consistent) (hl : Chain h e l)
    (hcap : vid.isStructural = false → h.logicalVersionCount e < h.maxVersionsPerEntity)
    (hfresh : h.getVersion vid = none) (hhead : Settled t.transactionTime.start (l.map record)) :
    ∃ h' l', addVersionWithInterval e vid t content h = .ok h' ∧ Evolves e h h' l' ∧
      l'.map record = ⟨vid, t, content⟩ :: l.map record ∧ h'.indexOf e = h.indexOf e := by
  have hhead' : ∀ hd, l.head? = some hd →
      ¬ (hd.entry.Recorded ∧ hd.entry.tx.start < t.transactionTime.start) := by
    intro hd hhd
    exact hhead hd.record (by rw [List.head?_map, hhd]; rfl)
  obtain ⟨h', hadd, hev, hix⟩ := addVersionWithInterval_spec vid t content hcons hl hcap
    hfresh hhead'
  refine ⟨h', _, hadd, hev, ?_, hix⟩
  rw [map_cons, linkHead_map_record]
  rfl

lemma run_append (vid : VersionId) (t : BiTemporalInterval) (content : Content X)
    (hcons : h.Consistent) (hl : Chain h e l)
    (hcap : vid.isStructural = false → h.logicalVersionCount e < h.maxVersionsPerEntity)
    (hfresh : h.getVersion vid = none) (hhead : Settled t.transactionTime.start (l.map record)) :
    ∃ h' l', (append e vid t content).run h = .ok (vid, t) h' ∧ Evolves e h h' l' ∧
      l'.map record = ⟨vid, t, content⟩ :: l.map record ∧ h'.indexOf e = h.indexOf e := by
  obtain ⟨h', l', hadd, hrest⟩ :=
    addVersionWithInterval_record vid t content hcons hl hcap hfresh hhead
  refine ⟨h', l', ?_, hrest⟩
  rw [append, run_bind_of_ok (run_modifyE hadd)]
  rfl

/-- `l'` is `l` with some versions withdrawn at `c` and versions of commit `c` appended. -/
def Appends (c : Timestamp) (l l' : List (Version K X)) : Prop :=
  ∃ rs ids, l'.map Version.record = rs ++ (l.map (closeIds ids c)).map Version.record ∧
    ∀ r ∈ rs, r.temporal.transactionTime.start = c

/-! ### Create -/

/-- **Create** starts the timeline of an entity. -/
theorem addVersion_create (vid : VersionId) (vf c : Timestamp) (content : Content X)
    (hcons : h.Consistent) (hl : Chain h e [])
    (hcap : h.logicalVersionCount e < h.maxVersionsPerEntity) (hfresh : h.getVersion vid = none) :
    ∃ h' l', addVersion e vid vf c content false h = .ok h' ∧ Evolves e h h' l' ∧
      l'.map record = [⟨vid, .withValidTime vf c, content⟩] ∧ h'.indexOf e = h.indexOf e := by
  obtain ⟨h', l', hadd, hrest⟩ := addVersionWithInterval_record vid (.withValidTime vf c)
    content hcons hl (fun _ => hcap) hfresh (fun hd hhd => nomatch hhd)
  exact ⟨h', l', by simpa [addVersion] using hadd, hrest⟩

/-! ### Update -/

def liveCarry (l : List (Version K X)) (vf : Timestamp) (ends : X) (cid : VersionId) :
    Option (Structural X) :=
  (coveringVersion l vf).bind fun p =>
    if p.temporal.validTime.start < vf then
      some (cid, p.temporal.validTime.start, { p.content with ends })
    else none

def liveReassert (hd : Version K X) (vf : Timestamp) (ends : X) (rid : VersionId) :
    Option (Structural X) :=
  if vf < hd.temporal.validTime.start then
    some (rid, hd.temporal.validTime.start, { hd.content with ends })
  else none

omit [DecidableEq K] in
lemma carryPayload_live (hl : Chain h e (hd :: tl)) (ends : X) (cid : VersionId) :
    carryPayload (livePlan hd tl vf) ends ((livePlan hd tl vf).carryFrom.map fun _ => cid) h =
      .ok (liveCarry (hd :: tl) vf ends cid) := by
  rcases hcov : coveringVersion (hd :: tl) vf with _ | p
  · simp [carryPayload, livePlan, liveCarry, hcov]
  · have hp := hl.stored (coveringVersion_eq_some hcov).1
    by_cases hlt : p.temporal.validTime.start < vf
    · simp [carryPayload, livePlan, liveCarry, hcov, hlt, hp, requireId, Option.filter]
    · simp [carryPayload, livePlan, liveCarry, hcov, hlt, Option.filter]

omit [DecidableEq K] in
lemma reassertPayload_live (hl : Chain h e (hd :: tl)) (ends : X) (rid : VersionId) :
    reassertPayload (livePlan hd tl vf) ends ((livePlan hd tl vf).reassert.map fun _ => rid) h =
      .ok (liveReassert hd vf ends rid) := by
  have hhd := hl.stored mem_cons_self
  by_cases hlt : vf < hd.temporal.validTime.start
  · simp [reassertPayload, livePlan, liveReassert, hlt, hhd, requireId]
  · simp [reassertPayload, livePlan, liveReassert, hlt]

def liveClose (hd : Version K X) (tl : List (Version K X)) (vf : Timestamp) : List VersionId :=
  ((coveringVersion (hd :: tl) vf).map (·.id)).toList ++
    if vf < hd.temporal.validTime.start then [hd.id] else []

section Live

variable (hl : Chain h e (hd :: tl))
  (hlive : Timeline.Live ((hd :: tl).map Version.entry) lo clock) (hvf : vf.Valid)

include hlive hvf in
omit [DecidableEq K] in
lemma covering_head_of_le (hle : hd.temporal.validTime.start ≤ vf) :
    coveringVersion (hd :: tl) vf = some hd := by
  obtain ⟨hrec, -, hstop⟩ := hlive.head_cons
  exact coveringVersion_of_holds hlive.toWellFormed mem_cons_self hrec ⟨hle, hstop ▸ hvf.lt_max⟩

include hlive hvf in
omit [DecidableEq K] in
lemma toClose_live : toClose (livePlan hd tl vf) (h.heads e) = liveClose hd tl vf := by
  by_cases hlt : vf < hd.temporal.validTime.start
  · simp [toClose, livePlan, liveClose, hlt]
  · have hcov := covering_head_of_le hlive hvf (not_lt.mp hlt)
    simp [toClose, livePlan, liveClose, hlt, hcov]

include hl hlive hvf

omit [DecidableEq K] in
lemma mem_liveClose {v : Version K X} (hv : v ∈ hd :: tl) (hrec : v.entry.Recorded) :
    v.id ∈ liveClose hd tl vf ↔ v = hd ∨ v.entry.Holds vf := by
  have hcovmem : v.id ∈ ((coveringVersion (hd :: tl) vf).map (·.id)).toList ↔
      v.entry.Holds vf := by
    rcases hcov : coveringVersion (hd :: tl) vf with _ | p
    · simp [coveringVersion_eq_none hcov hv hrec]
    · obtain ⟨hp, hprec, hpv⟩ := coveringVersion_eq_some hcov
      simp only [Option.map_some, Option.toList_some, mem_singleton]
      constructor
      · intro hid
        rwa [hl.eq_of_id hv hp hid]
      · intro hvv
        rw [coveringVersion_unique hlive.toWellFormed hv hp hrec hprec hvv hpv]
  rw [liveClose, mem_append, hcovmem, or_comm]
  split_ifs with hlt
  · rw [mem_singleton]
    refine or_congr_left ⟨fun hid => hl.eq_of_id hv mem_cons_self hid, fun heq => by rw [heq]⟩
  · -- an ordinary update closes the head because it covers `vf`
    obtain ⟨-, -, hstop⟩ := hlive.head_cons
    simp only [not_mem_nil, false_or]
    refine ⟨.inr, ?_⟩
    rintro (rfl | hvv)
    · exact ⟨not_lt.mp hlt, hstop ▸ hvf.lt_max⟩
    · exact hvv

omit [DecidableEq K] in
lemma map_closeIds_liveClose : ((hd :: tl).map (closeIds (liveClose hd tl vf) c)).map entry =
      supersedeAll vf c ((hd :: tl).map entry) := by
  obtain ⟨hrec, -, -⟩ := hlive.head_cons
  have hhd : (closeIds (liveClose hd tl vf) c hd).entry = hd.entry.close c := by
    rw [closeIds_entry, if_pos]
    exact ⟨(mem_liveClose hl hlive hvf mem_cons_self hrec).mpr (.inl rfl), hrec⟩
  simp only [map_cons, supersedeAll, hhd, map_map, List.cons.injEq, true_and]
  refine map_congr_left fun v hv => ?_
  have hne : v ≠ hd := by
    rintro rfl
    exact (nodup_cons.mp hl.nodup).1 (mem_map_of_mem hv)
  simp only [Function.comp_apply, closeIds_entry, supersede]
  by_cases hrv : v.entry.Recorded
  · have := mem_liveClose hl hlive hvf (mem_cons_of_mem _ hv) hrv
    simp only [hne, false_or] at this
    simp only [hrv, and_true, true_and, this]
  · simp [hrv]

end Live

omit [DecidableEq K] in
lemma closedInterval_eq (hle : vf ≤ vt) (hvt : vt.Valid) :
    closedInterval vf c vt = .ok ⟨⟨vf, vt⟩, .fromStart c⟩ := by
  simp only [closedInterval, BiTemporalInterval.withValidTime_closeValidTime hle hvt]

def carryRecord (vf c : Timestamp) (r : Structural X) : Record X :=
  ⟨r.1, ⟨⟨r.2.1, vf⟩, .fromStart c⟩, r.2.2⟩

def reassertRecord (c : Timestamp) (r : Structural X) : Record X :=
  ⟨r.1, .withValidTime r.2.1 c, r.2.2⟩

lemma run_appendCarry (carry : Option (Structural X)) (hcons : h.Consistent) (hl : Chain h e l)
    (hsettled : Settled c (l.map record)) (hvf : vf.Valid)
    (hcarry : ∀ r, carry = some r → r.1.isStructural = true ∧ h.getVersion r.1 = none ∧
      r.2.1 ≤ vf) : ∃ h' l', (appendCarry e vf c carry).run h =
        .ok (carry.toList.map fun r => (carryRecord vf c r).slice) h' ∧ Evolves e h h' l' ∧
      l'.map record = carry.toList.map (carryRecord vf c) ++ l.map record ∧
      h'.indexOf e = h.indexOf e := by
  cases carry with
  | none => exact ⟨h, l, rfl, .refl hcons hl, rfl, rfl⟩
  | some r =>
    obtain ⟨id, start, ct⟩ := r
    obtain ⟨hst, hfresh, hle⟩ := hcarry _ rfl
    have hint := closedInterval_eq (c := c) hle hvf
    obtain ⟨h', l', hrun, hev, hrec, hix⟩ := run_append id
      ⟨⟨start, vf⟩, .fromStart c⟩ ct hcons hl
      (fun hn => nomatch hst.symm.trans hn) hfresh hsettled
    refine ⟨h', l', ?_, hev, hrec, hix⟩
    rw [appendCarry, run_bind_of_ok
      (run_readE (g := fun _ => closedInterval start c vf) hint), run_bind_of_ok hrun]
    rfl

lemma run_appendReassert (reassert : Option (Structural X)) (hcons : h.Consistent)
    (hl : Chain h e l) (hsettled : Settled c (l.map record))
    (hreassert : ∀ r, reassert = some r → r.1.isStructural = true ∧ h.getVersion r.1 = none) :
    ∃ h' l', (appendReassert e c reassert).run h =
        .ok (reassert.toList.map fun r => (reassertRecord c r).slice) h' ∧ Evolves e h h' l' ∧
      l'.map record = reassert.toList.map (reassertRecord c) ++ l.map record ∧
      h'.indexOf e = h.indexOf e := by
  cases reassert with
  | none => exact ⟨h, l, rfl, .refl hcons hl, rfl, rfl⟩
  | some r =>
    obtain ⟨id, start, ct⟩ := r
    obtain ⟨hst, hfresh⟩ := hreassert _ rfl
    obtain ⟨h', l', hrun, hev, hrec, hix⟩ := run_append id
      (.withValidTime start c) ct hcons hl
      (fun hn => nomatch hst.symm.trans hn) hfresh hsettled
    refine ⟨h', l', ?_, hev, hrec, hix⟩
    rw [appendReassert, run_bind_of_ok hrun]
    rfl

/-- The records an update of a live entity appends, newest first. -/
def updateRecords (hd : Version K X) (tl : List (Version K X)) (vf c : Timestamp)
    (content : Content X) (vid cid rid : VersionId) : List (Record X) :=
  (liveReassert hd vf content.ends rid).toList.map (reassertRecord c) ++
    ⟨vid, ⟨⟨vf, Timeline.updateStop ((hd :: tl).map Version.entry) vf⟩, .fromStart c⟩, content⟩ ::
      (liveCarry (hd :: tl) vf content.ends cid).toList.map (carryRecord vf c)

omit [DecidableEq K] in
lemma newInterval_live (hlive : Timeline.Live ((hd :: tl).map entry) lo clock) (hvf : vf.Valid) :
    newInterval (livePlan hd tl vf) vf c =
      .ok ⟨⟨vf, updateStop ((hd :: tl).map entry) vf⟩, .fromStart c⟩ := by
  obtain ⟨hrec, hstart, hstop⟩ := hlive.head_cons
  set stop := updateStop ((hd :: tl).map entry) vf with hst
  by_cases hmax : stop = timestampMax
  · simp only [newInterval, livePlan, ← hst, if_pos hmax]
    rw [hmax]
    rfl
  · -- a bounded belief ends no later than the head begins
    have hlt : vf < hd.temporal.validTime.start := by
      by_contra hge
      have := (updateStop_eq hlive.toWellFormed (mem_map_of_mem mem_cons_self)
        hrec ⟨not_lt.mp hge, hstop ▸ hvf.lt_max⟩).2
      exact hmax (this.trans hstop)
    have hle := updateStop_le_head hlive.toWellFormed hrec (hstop ▸ hstart.lt_max) hlt
    have hvalid : stop.Valid := hstart.mono hle
    have hvle : vf ≤ stop := (lt_updateStop hvf).le
    simp only [newInterval, livePlan, ← hst, if_neg hmax, closedInterval_eq hvle hvalid]

omit [DecidableEq K] in
lemma liveCarry_id {ends : X} {cid : VersionId} {r : Structural X}
    (hr : r ∈ (liveCarry (hd :: tl) vf ends cid).toList) :
    (livePlan hd tl vf).carryFrom.isSome = true ∧ r.1 = cid := by
  simp only [liveCarry, Option.mem_toList, Option.bind_eq_some_iff] at hr
  obtain ⟨p, hp, hr⟩ := hr
  split_ifs at hr with hlt
  cases hr
  exact ⟨by simp [livePlan, hp, Option.filter, hlt], rfl⟩

omit [DecidableEq K] in
lemma settled_closed (hl : Chain h e (hd :: tl))
    (hlive : Timeline.Live ((hd :: tl).map entry) lo clock) (hvf : vf.Valid) (hc : c.Valid) :
    Settled c (((hd :: tl).map (closeIds (liveClose hd tl vf) c)).map record) := by
  intro r hr
  have hrec := hlive.head_cons.1
  have hin := (mem_liveClose hl hlive hvf mem_cons_self hrec).mpr (.inl rfl)
  simp only [map_cons, List.head?_cons, Option.some.injEq] at hr
  rw [← hr, closeIds, if_pos ⟨hin, hrec⟩]
  exact fun hn => hc.ne_max hn.1

omit [DecidableEq K] in
lemma settled_cons {r : Record X} (hr : r.entry.tx.start = c) : Settled c (r :: rs) := by
  intro r' hr'
  cases hr'
  exact fun hn => absurd hn.2 (by rw [hr]; exact lt_irrefl c)

omit [DecidableEq K] in
lemma settled_carry (hrs : Settled c rs) (carry : Option (Structural X)) :
    Settled c (carry.toList.map (carryRecord vf c) ++ rs) := by
  cases carry with
  | none => exact hrs
  | some r => exact settled_cons rfl

/-- **An update of a live entity** appends the planned records to the closed chain. -/
theorem run_applyUpdate (content : Content X) (hcons : h.Consistent) (hl : Chain h e (hd :: tl))
    (hlive : Timeline.Live ((hd :: tl).map entry) lo clock) (hle : clock ≤ c)
    (hc : c.Valid) (hvf : vf.Valid) (hcap : h.logicalVersionCount e < h.maxVersionsPerEntity)
    (hvid : vid.isStructural = false) (hcid : cid.isStructural = true)
    (hrid : rid.isStructural = true)
    (hne : (h.planEntityUpdate e vf).carryFrom.isSome = true → cid ≠ rid)
    (hvf' : h.getVersion vid = none) (hcf : h.getVersion cid = none)
    (hrf : h.getVersion rid = none) :
    ∃ h' l', (applyUpdate e (h.planEntityUpdate e vf) vf c vid content
          ((h.planEntityUpdate e vf).carryFrom.map fun _ => cid)
          ((h.planEntityUpdate e vf).reassert.map fun _ => rid)).run h =
        .ok { appended := ((updateRecords hd tl vf c content vid cid rid).map Record.slice).reverse
              reasserted := (liveReassert hd vf content.ends rid).map fun r => (r.1, r.2.2) } h' ∧
      Evolves e h h' l' ∧
      l'.map record = updateRecords hd tl vf c content vid cid rid ++
        ((hd :: tl).map (closeIds (liveClose hd tl vf) c)).map record ∧
      (Indexed h e (hd :: tl) → Indexed h' e ((hd :: tl).map (closeIds (liveClose hd tl vf) c))) := by
  rw [planEntityUpdate_eq hl hlive hvf] at hne ⊢
  obtain ⟨B, hB⟩ : ∃ B, B = (hd :: tl).map (closeIds (liveClose hd tl vf) c) := ⟨_, rfl⟩
  have hsettled : Settled c (B.map record) := hB ▸ settled_closed hl hlive hvf hc
  rw [← hB]
  -- close the superseded slices
  have hstart : ∀ v ∈ hd :: tl, v.temporal.transactionTime.start ≤ c := fun v hv =>
    (hlive.start_le _ (mem_map_of_mem hv)).trans hle
  have hids : ∀ vid ∈ liveClose hd tl vf, ∃ v ∈ hd :: tl, v.id = vid := by
    intro vid hvid
    rcases mem_append.mp hvid with hin | hin
    · obtain ⟨p, hp, rfl⟩ : ∃ p, coveringVersion (hd :: tl) vf = some p ∧ p.id = vid := by
        simpa using hin
      exact ⟨p, (coveringVersion_eq_some hp).1, rfl⟩
    · split_ifs at hin
      · exact ⟨hd, mem_cons_self, (mem_singleton.mp hin).symm⟩
      · simp at hin
  obtain ⟨h₀, hrun₀, hev₀, hix₀⟩ := each_closeIfRecorded hc _ hcons hl hstart hids
  rw [← hB] at hev₀ hix₀
  have hBid : B.map (·.id) = (hd :: tl).map (·.id) := by
    rw [hB, map_map]
    exact map_congr_left fun v _ => closeIds_id
  have hnotB : ∀ {id : VersionId}, h.getVersion id = none → id ∉ B.map (·.id) := by
    intro id hid hin
    rw [hBid, mem_map] at hin
    obtain ⟨v, hv, rfl⟩ := hin
    rw [hl.stored hv] at hid
    cases hid
  -- append the carry-forward
  obtain ⟨h₁, l₁, hrun₁, hev₁, hrec₁, hix₁⟩ :=
    run_appendCarry (liveCarry (hd :: tl) vf content.ends cid) hev₀.consistent hev₀.chain
      hsettled hvf (by
        intro r hr
        simp only [liveCarry, Option.bind_eq_some_iff] at hr
        obtain ⟨p, -, hr⟩ := hr
        split_ifs at hr with hlt
        cases hr
        exact ⟨hcid, hev₀.fresh hcf (hnotB hcf), hlt.le⟩)
  have hid₁ : ∀ id ∈ l₁.map (·.id),
      ((livePlan hd tl vf).carryFrom.isSome = true ∧ id = cid) ∨ id ∈ B.map (·.id) := by
    rw [map_id_eq, hrec₁, map_append, map_map, ← map_id_eq]
    intro id' hid
    refine (mem_append.mp hid).imp (fun hin => ?_) id
    obtain ⟨r, hr, rfl⟩ := mem_map.mp hin
    exact liveCarry_id hr
  have hev01 := hev₀.trans hev₁
  -- append the new version
  have hcap₁ : h₁.logicalVersionCount e < h₁.maxVersionsPerEntity := by
    have hcount : (B.map record).countP (fun r => !r.id.isStructural) =
        h.logicalVersionCount e := by
      rw [← hev₀.chain.countP_record, hev₀.chain.logicalVersionCount_of_ids hl hBid]
    rw [hev01.limit, hev₁.chain.countP_record, hrec₁, countP_append, hcount, countP_map,
      countP_eq_zero.mpr, Nat.zero_add]
    · exact hcap
    · intro r hr
      simp [carryRecord, (liveCarry_id hr).2, hcid]
  have hvid₁ : vid ∉ l₁.map (·.id) := fun hin => (hid₁ vid hin).elim
    (fun heq => nomatch (heq.2 ▸ hvid).symm.trans hcid) (hnotB hvf')
  obtain ⟨h₂, l₂, hrun₂, hev₂, hrec₂, hix₂⟩ := run_append vid
    ⟨⟨vf, updateStop ((hd :: tl).map entry) vf⟩, .fromStart c⟩ content
    hev₁.consistent hev₁.chain (fun _ => hcap₁) (hev01.fresh hvf' hvid₁)
    (by rw [hrec₁]; exact settled_carry hsettled _)
  have hev02 := hev01.trans hev₂
  -- append the re-assertion
  have hrid₂ : rid ∉ l₂.map (·.id) := by
    rw [map_id_eq, hrec₂, map_cons, ← map_id_eq, mem_cons]
    rintro (heq | hin)
    · rw [heq] at hrid
      exact nomatch hrid.symm.trans hvid
    · exact (hid₁ rid hin).elim (fun heq => hne heq.1 heq.2.symm) (hnotB hrf)
  obtain ⟨h₃, l₃, hrun₃, hev₃, hrec₃, hix₃⟩ :=
    run_appendReassert (c := c) (liveReassert hd vf content.ends rid) hev₂.consistent
      hev₂.chain (by rw [hrec₂]; exact settled_cons rfl) (by
        intro r hr
        simp only [liveReassert] at hr
        split_ifs at hr
        cases hr
        exact ⟨hrid, hev02.fresh hrf hrid₂⟩)
  refine ⟨h₃, l₃, ?_, hev02.trans hev₃, ?_, fun h0 x hx => hix₀ h0 x ?_⟩
  · have hnc : ¬ h.maxVersionsPerEntity < h.logicalVersionCount e + 1 := by omega
    rw [applyUpdate, run_bind_of_ok run_get, if_neg hnc,
      run_bind_of_ok (run_readE (carryPayload_live hl content.ends cid)),
      run_bind_of_ok (run_readE (reassertPayload_live hl content.ends rid)),
      toClose_live hlive hvf, run_bind_of_ok hrun₀, run_bind_of_ok hrun₁,
      run_bind_of_ok (run_readE (g := fun _ => newInterval (livePlan hd tl vf) vf c)
        (newInterval_live hlive hvf)),
      run_bind_of_ok hrun₂, run_bind_of_ok hrun₃, run_pure, updateRecords]
    cases liveReassert hd vf content.ends rid <;>
      cases liveCarry (hd :: tl) vf content.ends cid <;> rfl
  · rw [hrec₃, hrec₂, hrec₁, updateRecords]
    simp
  · rw [← hx, hix₃, hix₂, hix₁]

omit [DecidableEq K] in
lemma start_of_mem_updateRecords {r : Record X}
    (hr : r ∈ updateRecords hd tl vf c content vid cid rid) :
    r.temporal.transactionTime.start = c := by
  rw [updateRecords, mem_append, mem_cons] at hr
  rcases hr with hr | rfl | hr
  · obtain ⟨q, -, rfl⟩ := mem_map.mp hr
    rfl
  · rfl
  · obtain ⟨q, -, rfl⟩ := mem_map.mp hr
    rfl

omit [DecidableEq K] in
lemma updateRecords_entry (hlive : Timeline.Live ((hd :: tl).map entry) lo clock)
    (hl : Chain h e (hd :: tl)) (hvf : vf.Valid)
    (hvid : vid.isStructural = false) (hcid : cid.isStructural = true)
    (hrid : rid.isStructural = true) : (updateRecords hd tl vf c content vid cid rid ++
        ((hd :: tl).map (closeIds (liveClose hd tl vf) c)).map record).map Record.entry =
      update vf c content ((hd :: tl).map entry) := by
  have hre : (liveReassert hd vf content.ends rid).toList.map
      (Record.entry ∘ reassertRecord c) =
      reassert ((hd :: tl).map entry) vf c content.ends := by
    simp only [liveReassert, reassert, map_cons, List.head?_cons]
    split_ifs with hlt hlt' hlt'
    · simp [Record.entry, reassertRecord, entryAt, hrid, entry,
        BiTemporalInterval.withValidTime, TimeRange.fromStart]
    · exact absurd hlt hlt'
    · exact absurd hlt' hlt
    · rfl
  have hca : (liveCarry (hd :: tl) vf content.ends cid).toList.map
      (Record.entry ∘ carryRecord vf c) =
      carry ((hd :: tl).map entry) vf c content.ends := by
    simp only [liveCarry, carry, covering_map_entry]
    rcases coveringVersion (hd :: tl) vf with _ | p
    · rfl
    · simp only [Option.bind_some, Option.map_some]
      by_cases hlt : p.temporal.validTime.start < vf
      · simp [hlt, Record.entry, carryRecord, entryAt, hcid, entry]
      · simp [hlt, entry]
  have hB := map_closeIds_liveClose (c := c) hl hlive hvf
  rw [map_entry_eq] at hB
  rw [map_append, hB, updateRecords, map_append, map_cons, map_map,
    map_map, hre, hca, update, append_assoc, cons_append]
  simp only [Record.entry, hvid, entryAt]

end HistoricalStorage

end Aletheia
