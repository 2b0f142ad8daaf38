import Aletheia.EdgeHistory
import Aletheia.Lookup
import Aletheia.Tracking

/-!
# The temporal adjacency index follows the edge history

Every committed write of an edge keeps the index a mirror of the stored versions, as long as its
inserts find room: the versions it closes are open slices of a live edge, which do not overlap, so
that the entry found by its coordinates is the right one.
-/

namespace Aletheia

open HistoricalStorage TemporalAdjacencyIndex Exec List Option HistoryCall EntityStore

variable {s s' : EntityStore EdgeId Endpoints} {ix : TemporalAdjacencyIndex} {edge : EdgeId}
  {hd : Version EdgeId Endpoints} {tl : List (Version EdgeId Endpoints)}
  {lo clock commit : Timestamp} {search : BinarySearch} {h h' : EdgeVersions}
  {rs : List (Record Endpoints)} {ids : List VersionId}

section Live

variable (hr : s.Ready edge (hd :: tl))
  (hlive : Timeline.Live ((hd :: tl).map Version.entry) lo clock) {u : Version EdgeId Endpoints}

include hr

lemma mem_chain_of_stored {vid : VersionId} (hu : s.history.getVersion vid = some u)
    (hedge : u.entity = edge) : u ∈ hd :: tl := by
  have hid := hr.consistent vid u hu
  exact (hr.chain.mem u).mpr ⟨hid ▸ hu, hedge⟩

lemma entity_of_mem_chain {vid : VersionId} (hvid : ∃ v ∈ hd :: tl, v.id = vid)
    (hu : s.history.getVersion vid = some u) : u.entity = edge := by
  obtain ⟨v, hv, rfl⟩ := hvid
  rw [hr.chain.stored hv] at hu
  cases hu
  exact hr.chain.entity_eq hv

include hlive

lemma openApart_of_live : OpenApart s.history edge := by
  have hnonempty : ∀ u ∈ hd :: tl, u.temporal.transactionTime.stop = timestampMax →
      u.temporal.validTime.start < u.temporal.validTime.stop :=
    fun u hu hopen => hlive.nonempty _ (mem_map_of_mem hu) hopen
  refine ⟨fun vid u hu hedge hopen => hnonempty u (mem_chain_of_stored hr hu hedge) hopen, ?_⟩
  intro vid u vid' u' hu hu' hedge hedge' hopen hopen' hstart
  have hmem := mem_chain_of_stored hr hu hedge
  have hmem' := mem_chain_of_stored hr hu' hedge'
  have hholds : u.entry.Holds u.temporal.validTime.start := ⟨le_rfl, hnonempty u hmem hopen⟩
  have hholds' : u'.entry.Holds u.temporal.validTime.start :=
    ⟨hstart.ge, hstart ▸ hnonempty u' hmem' hopen'⟩
  have hwf := hlive.toWellFormed
  have heq : u = u' := eq_of_visible hwf hmem hmem'
    (hwf.visible_clock (mem_map_of_mem hmem) hopen hholds)
    (hwf.visible_clock (mem_map_of_mem hmem') hopen' hholds')
  rw [← hr.consistent vid u hu, ← hr.consistent vid' u' hu', heq]

end Live

lemma headSettled_of_closed {prevId : VersionId} (hpass : ClosedPass h h' ids)
    (hhead : h.heads edge = some prevId) (hmem : prevId ∈ ids) : HeadSettled h' edge commit := by
  intro vid prev hvid hprev hn
  rw [hpass.heads, hhead] at hvid
  cases hvid
  have hclosed := hpass.closed prevId hmem
  rw [isRecorded, hprev, any_some, Bool.eq_false_iff] at hclosed
  exact hclosed (BiTemporalInterval.isCurrentlyRecorded_iff.mpr hn.1)

lemma mirrors_appendCalls {isTombstone : Bool} (hm : Mirrors h ix) (hcons : h.Consistent)
    (hsettled : HeadSettled h edge commit) (hrs : Addable h commit isTombstone rs)
    (hfit : CallsFit search h ix (appendCalls edge isTombstone rs))
    (hrun : (each exec (appendCalls edge isTombstone rs)).run h = .ok () h') :
    Mirrors h' (adjacencyAfter search h ix (appendCalls edge isTombstone rs)) := by
  obtain ⟨h₁, hadds, hindexes⟩ := of_run_each_append hrun
  rw [appendCalls, adjacencyAfter_append hadds]
  exact mirrors_indexCalls
    (mirrors_addCalls hm hcons hsettled hrs (callsFit_append hadds hfit).1 hadds) hindexes

lemma mirrors_closeAndAppend {prevId : VersionId} {isTombstone : Bool} (hm : Mirrors h ix)
    (hcons : h.Consistent) (hapart : OpenApart h edge) (hcommit : commit ≠ timestampMax)
    (hids : ∀ vid ∈ ids, ∀ u, h.getVersion vid = some u → u.entity = edge)
    (hhead : h.heads edge = some prevId) (hmem : prevId ∈ ids)
    (hrs : Addable h commit isTombstone rs)
    (hfit : CallsFit search h ix
      (ids.map (fun vid => .closeIfRecorded vid commit) ++ appendCalls edge isTombstone rs))
    (hrun : (each exec
      (ids.map (fun vid => .closeIfRecorded vid commit) ++ appendCalls edge isTombstone rs)).run h =
        .ok () h') : Mirrors h' (adjacencyAfter search h ix
      (ids.map (fun vid => .closeIfRecorded vid commit) ++ appendCalls edge isTombstone rs)) := by
  obtain ⟨h₁, hcloses, happends⟩ := of_run_each_append hrun
  obtain ⟨hm₁, hpass⟩ := mirrors_closeCalls hm hcons hapart hcommit hids hcloses
  rw [adjacencyAfter_append hcloses]
  exact mirrors_appendCalls hm₁ hpass.consistent (headSettled_of_closed hpass hhead hmem)
    { hrs with fresh := fun r hr => hpass.fresh r.id (hrs.fresh r hr) }
    (callsFit_append hcloses hfit).2 happends

section Writes

variable {p : Status × Option Timestamp} {txId : TxId}
  {cs : List (HistoryCall EdgeId Endpoints)} (hm : Mirrors s.history ix)
  (hfit : CallsFit search s.history ix cs) {prov : Option Provenance}

lemma closedInterval_eq_ok {start stop : Timestamp} {t : BiTemporalInterval}
    (ht : closedInterval start commit stop = .ok t) :
    t.validTime = ⟨start, stop⟩ ∧ t.transactionTime.start = commit := by
  have h := closeValidTime_of_closedInterval ht
  obtain ⟨-, -, rfl⟩ := BiTemporalInterval.closeValidTime_eq_ok h
  exact ⟨rfl, rfl⟩

include hm hfit

lemma mirrors_create {vf : ValidTimestamp} {content : Content Endpoints}
    (htr : Tracked s clock edge p) (hfresh : s.history.heads edge = none)
    (hcs : (Write.create edge vf content).calls s commit = .ok cs)
    (hrun : (each exec cs).run s.history = .ok () s'.history) :
    Mirrors s'.history (adjacencyAfter search s.history ix cs) := by
  obtain ⟨-, hr⟩ := htr.of_heads hfresh
  cases hcs
  have hsettled : HeadSettled s.history edge commit := by
    intro prevId prev hprev
    rw [hfresh] at hprev
    cases hprev
  exact mirrors_appendCalls hm hr.consistent hsettled
    (.singleton rfl (hr.getVersion_eq_none _ le_rfl) fun h => by cases h) hfit hrun

lemma mirrors_delete {vf : ValidTimestamp} (htr : Tracked s clock edge p) (hcommit : commit.Valid)
    (hcs : (Write.delete edge vf prov).calls s commit = .ok cs)
    (hrun : (each exec cs).run s.history = .ok () s'.history) :
    Mirrors s'.history (adjacencyAfter search s.history ix cs) := by
  simp only [Write.calls] at hcs
  cases hx : s.current.get edge with
  | none =>
    rw [hx] at hcs
    cases hcs
  | some x =>
    rw [hx] at hcs
    obtain ⟨t, ht, hcs⟩ := except_bind_eq_ok.mp hcs
    cases hcs
    obtain ⟨hvalid, hstart⟩ : t.validTime = ⟨vf, vf⟩ ∧ t.transactionTime.start = commit :=
      closedInterval_eq_ok ht
    obtain ⟨lo, hd, tl, rfl, hr, -, hlive⟩ := htr.of_get hx
    refine mirrors_closeAndAppend hm hr.consistent (openApart_of_live hr hlive) hcommit.ne_max ?_
      hr.chain.head ?_ (.singleton hstart (hr.getVersion_eq_none _ le_rfl) fun _ => ?_) hfit hrun
    · intro vid hvid u hu
      refine entity_of_mem_chain hr ?_ hu
      obtain hvid | hvid := mem_append.mp hvid
      · obtain ⟨v, hv, hid, -⟩ := (hr.chain.mem_open vid).mp hvid
        exact ⟨v, mem_of_mem_tail hv, hid⟩
      · rw [hr.chain.head] at hvid
        exact ⟨hd, mem_cons_self, (mem_singleton.mp hvid).symm⟩
    · rw [hr.chain.head]
      exact mem_append_right _ (mem_singleton_self _)
    · dsimp only
      rw [hvalid]

omit hm hfit

section Update

variable (hr : s.Ready edge (hd :: tl))
  (hlive : Timeline.Live ((hd :: tl).map Version.entry) lo clock) {vf : ValidTimestamp}
  {content : Content Endpoints}

/-- The versions that an update of a live edge adds, in their order. -/
def addedRecords (s : EntityStore EdgeId Endpoints) (edge : EdgeId) (hd : Version EdgeId Endpoints)
    (tl : List (Version EdgeId Endpoints)) (vf commit : Timestamp) (content : Content Endpoints) :
    List (Record Endpoints) :=
  (updateRecords hd tl vf commit content (.new s.versionIdGen) s.drawn.carryId
    (s.drawn.reassertId edge vf)).reverse

lemma carryRecords_live {cid : VersionId} {ends : Endpoints} :
    carryRecords vf commit (liveCarry (hd :: tl) vf ends cid) =
      .ok ((liveCarry (hd :: tl) vf ends cid).toList.map (carryRecord vf commit)) := by
  rcases hcarry : liveCarry (hd :: tl) vf ends cid with _ | ⟨id, start, ct⟩
  · rfl
  · obtain ⟨u, -, hu⟩ := bind_eq_some_iff.mp hcarry
    split_ifs at hu with hlt
    cases hu
    rw [carryRecords, closedInterval_eq hlt.le vf.property]
    rfl

lemma mem_ids_liveClose : ∀ vid ∈ liveClose hd tl vf, ∃ v ∈ hd :: tl, v.id = vid := by
  intro vid hvid
  obtain hvid | hvid := mem_append.mp hvid
  · obtain ⟨v, hv, rfl⟩ := map_eq_some_iff.mp (mem_toList.mp hvid)
    exact ⟨v, (coveringVersion_eq_some hv).1, rfl⟩
  · split_ifs at hvid
    · exact ⟨hd, mem_cons_self, (mem_singleton.mp hvid).symm⟩
    · cases hvid

lemma liveReassert_id {ends : Endpoints} {rid : VersionId} {r : Structural Endpoints}
    (h : liveReassert hd vf ends rid = some r) : r.1 = rid := by
  unfold liveReassert at h
  split_ifs at h
  cases h
  rfl

include hr hlive

lemma calls_update_live : (Write.update edge vf content).calls s commit =
    .ok ((liveClose hd tl vf).map (fun vid => .closeIfRecorded vid commit) ++
      appendCalls edge false (addedRecords s edge hd tl vf commit content)) := by
  have hplan := planEntityUpdate_eq hr.chain hlive vf.property
  simp only [Write.calls, hplan, carryPayload_live hr.chain, reassertPayload_live hr.chain,
    carryRecords_live, newInterval_live hlive vf.property, toClose_live hlive vf.property,
    bind, Except.bind, pure, Except.pure]
  simp only [addedRecords, updateRecords, reverse_append, reverse_cons,
    carryId, reassertId, drawn, hplan]
  congr 3
  rcases liveCarry (hd :: tl) vf content.ends (.structural (s.versionIdGen + 1)) with _ | c <;>
    rcases liveReassert hd vf content.ends (.structural (s.versionIdGen + 1 +
      (livePlan hd tl vf).carryFrom.isSome.toNat)) with _ | r <;> rfl

lemma addedRecords_ids (vf : ValidTimestamp) (commit : Timestamp) (content : Content Endpoints) :
    ((addedRecords s edge hd tl vf commit content).map Record.id).Nodup ∧
      ∀ id ∈ (addedRecords s edge hd tl vf commit content).map Record.id,
        s.versionIdGen ≤ id.seq := by
  have hids : ((addedRecords s edge hd tl vf commit content).map Record.id) =
      (liveCarry (hd :: tl) vf content.ends s.drawn.carryId).toList.map Prod.fst ++
      .new s.versionIdGen ::
        (liveReassert hd vf content.ends (s.drawn.reassertId edge vf)).toList.map Prod.fst := by
    rcases hc : liveCarry (hd :: tl) vf content.ends s.drawn.carryId with _ | c <;>
      rcases hre : liveReassert hd vf content.ends (s.drawn.reassertId edge vf) with _ | r <;>
      simp [addedRecords, updateRecords, hc, hre, carryRecord, reassertRecord]
  rw [hids]
  rcases hc : liveCarry (hd :: tl) vf content.ends s.drawn.carryId with _ | c <;>
    rcases hre : liveReassert hd vf content.ends (s.drawn.reassertId edge vf) with _ | r
  · simp [VersionId.new]
  · have hrid := liveReassert_id hre
    simp [hrid, VersionId.new, VersionId.structural, reassertId, drawn, add_assoc]
  · have hcid := (liveCarry_id (mem_toList.mpr hc)).2
    simp [hcid, VersionId.new, VersionId.structural, carryId, drawn]
  · -- with a carry-forward, the re-assertion takes the id after it
    obtain ⟨hsome, hcid⟩ := liveCarry_id (mem_toList.mpr hc)
    rw [← planEntityUpdate_eq hr.chain hlive vf.property] at hsome
    have hrid := liveReassert_id hre
    simp [hcid, hrid, VersionId.new, VersionId.structural, carryId,
      reassertId, hsome, drawn, add_assoc]

include hm hfit in
lemma mirrors_update_live (hcommit : commit.Valid)
    (hcs : (Write.update edge vf content).calls s commit = .ok cs)
    (hrun : (each exec cs).run s.history = .ok () s'.history) :
    Mirrors s'.history (adjacencyAfter search s.history ix cs) := by
  rw [calls_update_live hr hlive] at hcs
  cases hcs
  obtain ⟨hnodup, hdrawn⟩ := addedRecords_ids hr hlive vf commit content
  have hhead : hd.id ∈ liveClose hd tl vf :=
    (mem_liveClose hr.chain hlive vf.property mem_cons_self hlive.head_cons.1).mpr (.inl rfl)
  refine mirrors_closeAndAppend hm hr.consistent (openApart_of_live hr hlive) hcommit.ne_max ?_
    hr.chain.head hhead ⟨?_, ?_, hnodup, fun h => by cases h⟩ hfit hrun
  · intro vid hvid u hu
    exact entity_of_mem_chain hr (mem_ids_liveClose vid hvid) hu
  · intro r hmem
    exact start_of_mem_updateRecords (mem_reverse.mp hmem)
  · intro r hmem
    exact hr.getVersion_eq_none r.id (hdrawn r.id (mem_map_of_mem hmem))

end Update

include hm hfit

lemma mirrors_retract {vt : ValidTimestamp} (htr : Tracked s clock edge p) (hcommit : commit.Valid)
    (hcs : (Write.retract edge vt prov).calls s commit = .ok cs)
    (hrun : (each exec cs).run s.history = .ok () s'.history) :
    Mirrors s'.history (adjacencyAfter search s.history ix cs) := by
  simp only [Write.calls] at hcs
  cases hx : s.current.get edge with
  | none =>
    rw [hx] at hcs
    cases hcs
  | some x =>
    rw [hx] at hcs
    obtain ⟨t, ht, hcs⟩ := except_bind_eq_ok.mp hcs
    obtain ⟨-, hstart⟩ := closedInterval_eq_ok ht
    obtain ⟨lo, hd, tl, rfl, hr, -, hlive⟩ := htr.of_get hx
    have hhead : s.history.heads edge = some hd.id := hr.chain.head
    rw [hhead] at hcs
    cases hcs
    obtain ⟨h₁, hclosed, happends⟩ := of_run_each_append hrun
    rw [adjacencyAfter_append hclosed]
    -- the head alone is closed
    have hclose : closeVersionTransactionTime hd.id commit s.history = .ok h₁ :=
      run_modifyE_eq_ok.mp (run_each_singleton.symm.trans hclosed)
    obtain ⟨-, hcl⟩ := closesVersion_of_close hr.consistent (hr.chain.stored mem_cons_self)
      hlive.head_cons.1 hclose
    have hpass := hcl.closedPass hr.consistent hcommit.ne_max
    have hentity : hd.entity = edge := hr.chain.entity_eq mem_cons_self
    have hm₁ : Mirrors h₁ (adjacencyAfter search s.history ix [.close hd.id commit]) := by
      have hrun₁ : (close hd.id commit : HistoryCall EdgeId Endpoints).exec.run
          s.history = .ok () h₁ := run_modifyE hclose
      rw [adjacencyAfter, hrun₁]
      exact mirrors_close hm hcl (hentity.symm ▸ openApart_of_live hr hlive)
    have hsettled : HeadSettled h₁ edge commit :=
      headSettled_of_closed hpass hhead (mem_singleton_self _)
    exact mirrors_appendCalls hm₁ hpass.consistent hsettled
      (.singleton hstart (hpass.fresh _ (hr.getVersion_eq_none _ le_rfl)) fun h => by cases h)
      (callsFit_append hclosed hfit).2 happends

/-- **A write of an edge keeps the index a mirror of the history**, as long as its inserts fit. -/
theorem mirrors_exec {w : Write EdgeId Endpoints} (htr : Tracked s clock w.key p)
    (hcommit : commit.Valid) (hfresh : w.CreatesFresh s) (hlive : w.UpdatesLive s)
    (hcs : w.calls s commit = .ok cs) (hrun : (w.exec txId commit).run s = .ok () s') :
    Mirrors s'.history (adjacencyAfter search s.history ix cs) := by
  obtain ⟨cs', hcs', hcalls⟩ := run_calls hrun
  cases hcs.symm.trans hcs'
  cases w with
  | create edge vf content => exact mirrors_create hm hfit htr hfresh hcs hcalls
  | update edge vf content =>
    obtain ⟨x, hx⟩ := isSome_iff_exists.mp hlive
    obtain ⟨lo, hd, tl, rfl, hr, -, hl⟩ := htr.of_get hx
    exact mirrors_update_live hm hfit hr hl hcommit hcs hcalls
  | delete edge vf prov => exact mirrors_delete hm hfit htr hcommit hcs hcalls
  | retract edge vt prov => exact mirrors_retract hm hfit htr hcommit hcs hcalls

end Writes

end Aletheia
