import Aletheia.HistoryCalls
import Aletheia.TemporalAdjacency

/-!
# The edge history with its temporal adjacency index

`add_edge_version_with_interval` and `close_edge_version_transaction_time` keep the temporal
adjacency index in step with the versions: a closed version has its entry closed, a new version
that is no tombstone gets an entry, and an insert that finds no room is ignored. `Mirrors` says what
this achieves.
-/

namespace Aletheia

open HistoricalStorage TemporalAdjacencyIndex Exec Function List Option Version HistoryCall

variable {vid : VersionId} {node : NodeId} {x : TemporalAdjacencyEntry}

abbrev EdgeVersions := HistoricalStorage EdgeId Endpoints

/-- Close the entry of a version, found by its coordinates. -/
def closeVersionEntry (h : EdgeVersions) (vid : VersionId) (stop : Timestamp)
    (ix : TemporalAdjacencyIndex) : TemporalAdjacencyIndex :=
  match h.getVersion vid with
  | none => ix
  | some v =>
    ix.closeEdgeTransactionTimeOf v.entity v.content.ends.source v.content.ends.target
      v.temporal.validTime.start v.temporal.transactionTime.start stop

/-- Close the entry of the superseded head when its transaction interval was closed. The entry is
looked for under the endpoints of the new version. -/
def supersedeEntry (h : EdgeVersions) (edge : EdgeId) (vid : VersionId)
    (temporal : BiTemporalInterval) (ends : Endpoints) (ix : TemporalAdjacencyIndex) :
    TemporalAdjacencyIndex :=
  match (h.heads edge).bind h.getVersion with
  | none => ix
  | some prev =>
    match closePreviousVersionIntervals prev vid temporal with
    | .error _ => ix
    | .ok prev' =>
      if prev.temporal.transactionTime.stop ≠ prev'.temporal.transactionTime.stop then
        ix.closeEdgeTransactionTimeOf edge ends.source ends.target prev.temporal.validTime.start
          prev.temporal.transactionTime.start prev'.temporal.transactionTime.stop
      else ix

/-- What a call on the edge history does to the temporal adjacency index. -/
def HistoryCall.adjacency (search : BinarySearch) (h : EdgeVersions)
    (ix : TemporalAdjacencyIndex) : HistoryCall EdgeId Endpoints → TemporalAdjacencyIndex
  | .closeIfRecorded vid stop => if h.isRecorded vid then closeVersionEntry h vid stop ix else ix
  | .close vid stop => closeVersionEntry h vid stop ix
  | .add edge vid temporal content isTombstone =>
    let ix := supersedeEntry h edge vid temporal content.ends ix
    if isTombstone then ix
    else ix.call search (.insertEdge edge content.ends.source content.ends.target content.label
      temporal.validTime.start temporal.validTime.stop temporal.transactionTime.start
      temporal.transactionTime.stop)
  | .index _ _ => ix

def adjacencyAfter (search : BinarySearch) : EdgeVersions → TemporalAdjacencyIndex →
    List (HistoryCall EdgeId Endpoints) → TemporalAdjacencyIndex
  | _, ix, [] => ix
  | h, ix, c :: cs =>
    match c.exec.run h with
    | .ok () h' => adjacencyAfter search h' (c.adjacency search h ix) cs
    | .error _ _ => ix

/-- An insert finds room at both nodes. -/
def HistoryCall.Fits (ix : TemporalAdjacencyIndex) : HistoryCall EdgeId Endpoints → Prop
  | .add _ _ _ content false =>
    (ix.outgoing content.ends.source).length < ix.maxEntriesPerNode ∧
      (ix.incoming content.ends.target).length < ix.maxEntriesPerNode
  | _ => True

instance (ix : TemporalAdjacencyIndex) (c : HistoryCall EdgeId Endpoints) :
    Decidable (c.Fits ix) := by
  unfold HistoryCall.Fits
  split <;> infer_instance

def CallsFit (search : BinarySearch) : EdgeVersions → TemporalAdjacencyIndex →
    List (HistoryCall EdgeId Endpoints) → Prop
  | _, _, [] => True
  | h, ix, c :: cs => c.Fits ix ∧
    match c.exec.run h with
    | .ok () h' => CallsFit search h' (c.adjacency search h ix) cs
    | .error _ _ => True

instance decidableCallsFit (search : BinarySearch) : (h : EdgeVersions) →
    (ix : TemporalAdjacencyIndex) → (cs : List (HistoryCall EdgeId Endpoints)) →
    Decidable (CallsFit search h ix cs)
  | _, _, [] => isTrue trivial
  | h, ix, c :: cs =>
    have : Decidable (match c.exec.run h with
        | .ok () h' => CallsFit search h' (c.adjacency search h ix) cs
        | .error _ _ => True) :=
      match c.exec.run h with
      | .ok () h' => decidableCallsFit search h' (c.adjacency search h ix) cs
      | .error _ _ => isTrue trivial
    inferInstanceAs (Decidable (c.Fits ix ∧ _))

/-! ### The mirror -/

/-- The entry of a version in the list of its source node. -/
def Version.adjacencyEntry (u : Version EdgeId Endpoints) : TemporalAdjacencyEntry :=
  ⟨u.entity, u.content.ends.target, u.content.label, u.temporal.validTime.start,
    u.temporal.validTime.stop, u.temporal.transactionTime.start, u.temporal.transactionTime.stop⟩

/-- The entry stands for the stored version, which leaves the node. -/
def Shows (h : EdgeVersions) (node : NodeId) (vid : VersionId) (x : TemporalAdjacencyEntry) :
    Prop :=
  ∃ u, h.getVersion vid = some u ∧ u.content.ends.source = node ∧ u.adjacencyEntry = x

/-- Each entry of a node stands for one version that leaves it, and every version that holds
somewhere has its entry. -/
def Mirrors (h : EdgeVersions) (ix : TemporalAdjacencyIndex) : Prop :=
  ∀ node, ∃ vids : List VersionId, vids.Nodup ∧
    List.Forall₂ (Shows h node) vids (ix.outgoing node) ∧
    ∀ vid u, h.getVersion vid = some u → u.content.ends.source = node →
      u.temporal.validTime.start < u.temporal.validTime.stop → vid ∈ vids

lemma any_iff_mem {α β : Type} {R : α → β → Prop} {p : β → Bool} {target : α} {l : List α}
    {l' : List β} (h : List.Forall₂ R l l') (hp : ∀ a x, R a x → (p x = true ↔ a = target)) :
    l'.any p = true ↔ target ∈ l := by
  induction h with
  | nil => simp
  | @cons a x l l' hax _ ih =>
    rw [any_cons, Bool.or_eq_true, ih, hp a x hax, mem_cons]
    exact or_congr_left eq_comm

lemma forall₂_replaceLast {α β : Type} {R R' : α → β → Prop} {p : β → Bool} {f : β → β} {target : α}
    {l : List α} {l' : List β} (h : List.Forall₂ R l l') (hnodup : l.Nodup)
    (hp : ∀ a x, R a x → (p x = true ↔ a = target)) (hkeep : ∀ a x, a ≠ target → R a x → R' a x)
    (hchange : ∀ x, R target x → R' target (f x)) : List.Forall₂ R' l (replaceLast p f l') := by
  induction h with
  | nil => exact .nil
  | @cons a x l l' hax hrest ih =>
    obtain ⟨hnot, hnodup⟩ := nodup_cons.mp hnodup
    have hany := any_iff_mem hrest hp
    unfold replaceLast
    by_cases htarget : target ∈ l
    · rw [if_pos (hany.mpr htarget)]
      refine .cons (hkeep a x ?_ hax) (ih hnodup)
      rintro rfl
      exact hnot htarget
    · rw [if_neg (mt hany.mp htarget)]
      have hrest' : List.Forall₂ R' l l' := by
        refine (forall₂_iff_get.mpr ?_)
        obtain ⟨hlen, hget⟩ := forall₂_iff_get.mp hrest
        refine ⟨hlen, fun i h₁ h₂ => hkeep _ _ ?_ (hget i h₁ h₂)⟩
        rintro heq
        exact htarget (heq ▸ get_mem l ⟨i, h₁⟩)
      by_cases ha : a = target
      · rw [if_pos ((hp a x hax).mpr ha)]
        subst ha
        exact .cons (hchange x hax) hrest'
      · rw [if_neg (mt (hp a x hax).mp ha)]
        exact .cons (hkeep a x ha hax) hrest'

/-- The facts of a version that an index shows. -/
def Version.facts (u : Version EdgeId Endpoints) :
    EdgeId × BiTemporalInterval × Content Endpoints :=
  (u.entity, u.temporal, u.content)

lemma Shows.of_facts {h h' : EdgeVersions} (hs : Shows h node vid x)
    (hfacts : (h'.getVersion vid).map facts = (h.getVersion vid).map facts) :
    Shows h' node vid x := by
  obtain ⟨u, hu, hsource, rfl⟩ := hs
  rw [hu, map_some, map_eq_some_iff] at hfacts
  obtain ⟨u', hu', hfacts⟩ := hfacts
  obtain ⟨hentity, htemporal, hcontent⟩ : u'.entity = u.entity ∧ u'.temporal = u.temporal ∧
      u'.content = u.content := by
    simpa [facts] using hfacts
  refine ⟨u', hu', hcontent ▸ hsource, ?_⟩
  rw [Version.adjacencyEntry, Version.adjacencyEntry, hentity, htemporal, hcontent]

section Close

variable {h h' : EdgeVersions} {ix : TemporalAdjacencyIndex} {v : Version EdgeId Endpoints}
  {stop : Timestamp}

/-- The open versions of an edge hold somewhere, and no two of them from the same time on. -/
structure OpenApart (h : EdgeVersions) (edge : EdgeId) : Prop where
  nonempty : ∀ vid u, h.getVersion vid = some u → u.entity = edge →
    u.temporal.transactionTime.stop = timestampMax →
    u.temporal.validTime.start < u.temporal.validTime.stop
  apart : ∀ vid u vid' u', h.getVersion vid = some u → h.getVersion vid' = some u' →
    u.entity = edge → u'.entity = edge → u.temporal.transactionTime.stop = timestampMax →
    u'.temporal.transactionTime.stop = timestampMax →
    u.temporal.validTime.start = u'.temporal.validTime.start → vid = vid'

/-- The store with one version closed. -/
structure ClosesVersion (h h' : EdgeVersions) (v : Version EdgeId Endpoints) (stop : Timestamp) :
    Prop where
  stored : h.getVersion v.id = some v
  recorded : v.temporal.transactionTime.stop = timestampMax
  closed : ∀ vid, h'.getVersion vid = if vid = v.id then some (v.close stop) else h.getVersion vid
  heads : h'.heads = h.heads

lemma ClosesVersion.openApart {edge : EdgeId} (hcl : ClosesVersion h h' v stop)
    (hstop : stop ≠ timestampMax) (hapart : OpenApart h edge) : OpenApart h' edge := by
  -- what is open after the step was there before it
  have hold : ∀ vid u, h'.getVersion vid = some u →
      u.temporal.transactionTime.stop = timestampMax → h.getVersion vid = some u := by
    intro vid u hu hopen
    rw [hcl.closed] at hu
    split at hu
    · cases hu
      exact absurd hopen hstop
    · exact hu
  refine ⟨fun vid u hu hedge hopen => hapart.nonempty vid u (hold vid u hu hopen) hedge hopen, ?_⟩
  intro vid u vid' u' hu hu' hedge hedge' hopen hopen' hstart
  exact hapart.apart vid u vid' u' (hold vid u hu hopen) (hold vid' u' hu' hopen') hedge hedge'
    hopen hopen' hstart

/-- **Closing a version closes its entry**, and no other. -/
lemma mirrors_close (hm : Mirrors h ix) (hcl : ClosesVersion h h' v stop)
    (hapart : OpenApart h v.entity) : Mirrors h' (closeVersionEntry h v.id stop ix) := by
  have hnonempty := hapart.nonempty v.id v hcl.stored rfl hcl.recorded
  have hix : closeVersionEntry h v.id stop ix = ix.closeEdgeTransactionTimeOf v.entity
      v.content.ends.source v.content.ends.target v.temporal.validTime.start
      v.temporal.transactionTime.start stop := by
    rw [closeVersionEntry, hcl.stored]
  -- a version other than the closed one is as it was
  have hkeep : ∀ node vid x, vid ≠ v.id → Shows h node vid x → Shows h' node vid x := by
    intro node vid x hne hs
    refine hs.of_facts ?_
    rw [hcl.closed, if_neg hne]
  rw [hix]
  intro node
  obtain ⟨vids, hnodup, hshows, hall⟩ := hm node
  refine ⟨vids, hnodup, ?_, ?_⟩
  · by_cases hnode : node = v.content.ends.source
    · subst hnode
      have hmem : v.id ∈ vids := hall v.id v hcl.stored rfl hnonempty
      have hexact : ∀ vid x, Shows h v.content.ends.source vid x →
          (decide (x.edgeId = v.entity ∧ x.validFrom = v.temporal.validTime.start ∧
            x.txFrom = v.temporal.transactionTime.start ∧ x.txTo = timestampMax) = true ↔
            vid = v.id) := by
        rintro vid x ⟨u, hu, -, rfl⟩
        rw [decide_eq_true_eq]
        constructor
        · rintro ⟨hedge, hstart, -, hopen⟩
          exact hapart.apart vid u v.id v hu hcl.stored hedge rfl hopen hcl.recorded hstart
        · rintro rfl
          rw [hcl.stored] at hu
          cases hu
          exact ⟨rfl, rfl, rfl, hcl.recorded⟩
      simp only [closeEdgeTransactionTimeOf, update_self, closeEntryOf]
      rw [if_pos ((any_iff_mem hshows hexact).mpr hmem)]
      refine forall₂_replaceLast hshows hnodup hexact (hkeep _) ?_
      rintro x ⟨u, hu, hsource, rfl⟩
      rw [hcl.stored] at hu
      cases hu
      exact ⟨v.close stop, by rw [hcl.closed, if_pos rfl], hsource, rfl⟩
    · simp only [closeEdgeTransactionTimeOf, update_of_ne hnode]
      refine hshows.imp fun vid x hs => hkeep node vid x ?_ hs
      rintro rfl
      obtain ⟨u, hu, hsource, -⟩ := hs
      rw [hcl.stored] at hu
      cases hu
      exact hnode hsource.symm
  · intro vid u hu hsource hlt
    rw [hcl.closed] at hu
    split at hu
    · rename_i heq
      cases hu
      exact heq ▸ hall v.id v hcl.stored hsource hlt
    · exact hall vid u hu hsource hlt

end Close

section Calls

variable {h h' h'' : EdgeVersions} {ix : TemporalAdjacencyIndex} {edge : EdgeId}
  {commit : Timestamp} {search : BinarySearch} {cs cs' : List (HistoryCall EdgeId Endpoints)}
  {v : Version EdgeId Endpoints} {rs : List (Record Endpoints)}

lemma closesVersion_of_close (hcons : h.Consistent) (hv : h.getVersion vid = some v)
    (hrec : v.temporal.transactionTime.stop = timestampMax)
    (hclose : closeVersionTransactionTime vid commit h = .ok h') :
    v.id = vid ∧ ClosesVersion h h' v commit := by
  have hid := hcons vid v hv
  subst hid
  unfold closeVersionTransactionTime at hclose
  rw [hv] at hclose
  dsimp only at hclose
  split at hclose
  · cases hclose
  · rename_i t ht
    cases hclose
    have hvt : ({ v with temporal := t } : Version EdgeId Endpoints) = v.close commit := by
      rw [BiTemporalInterval.closeTransactionTime_eq_ok ht]
      rfl
    refine ⟨rfl, hv, hrec, fun vid => ?_, rfl⟩
    simp only [untrackSlice, getVersion, hvt]
    split_ifs with heq
    · subst heq
      exact Finmap.lookup_insert _
    · exact Finmap.lookup_insert_of_ne _ heq

variable (hrun : (each HistoryCall.exec cs).run h = .ok () h')

include hrun

lemma adjacencyAfter_append : adjacencyAfter search h ix (cs ++ cs') =
      adjacencyAfter search h' (adjacencyAfter search h ix cs) cs' := by
  induction cs generalizing h ix with
  | nil =>
    cases hrun
    rfl
  | cons c cs ih =>
    obtain ⟨_, h₁, hc, hrest⟩ := run_bind_eq_ok.mp hrun
    rw [cons_append, adjacencyAfter, adjacencyAfter, hc]
    exact ih hrest

lemma callsFit_append (hfit : CallsFit search h ix (cs ++ cs')) :
    CallsFit search h ix cs ∧ CallsFit search h' (adjacencyAfter search h ix cs) cs' := by
  induction cs generalizing h ix with
  | nil =>
    cases hrun
    exact ⟨trivial, hfit⟩
  | cons c cs ih =>
    obtain ⟨_, h₁, hc, hrest⟩ := run_bind_eq_ok.mp hrun
    rw [cons_append, CallsFit, hc] at hfit
    obtain ⟨hhead, htail⟩ := ih hrest hfit.2
    rw [CallsFit, adjacencyAfter, hc]
    exact ⟨⟨hfit.1, hhead⟩, htail⟩

omit hrun

/-- What a pass of closings leaves. -/
structure ClosedPass (h h' : EdgeVersions) (ids : List VersionId) : Prop where
  consistent : h'.Consistent
  heads : h'.heads = h.heads
  closed : ∀ vid ∈ ids, h'.isRecorded vid = false
  mono : ∀ vid, h.isRecorded vid = false → h'.isRecorded vid = false
  fresh : ∀ vid, h.getVersion vid = none → h'.getVersion vid = none

lemma ClosesVersion.closedPass (hcl : ClosesVersion h h' v commit) (hcons : h.Consistent)
    (hcommit : commit ≠ timestampMax) : ClosedPass h h' [v.id] := by
  have hclosed : h'.isRecorded v.id = false := by
    rw [isRecorded, hcl.closed, if_pos rfl, any_some, Bool.eq_false_iff]
    exact mt BiTemporalInterval.isCurrentlyRecorded_iff.mp hcommit
  refine ⟨?_, hcl.heads, ?_, ?_, ?_⟩
  · intro vid u hu
    rw [hcl.closed] at hu
    split at hu
    · rename_i heq
      cases hu
      exact heq.symm
    · exact hcons vid u hu
  · intro vid hvid
    obtain rfl := mem_singleton.mp hvid
    exact hclosed
  · intro vid hvid
    by_cases heq : vid = v.id
    · rw [heq]
      exact hclosed
    · rw [isRecorded, hcl.closed, if_neg heq]
      exact hvid
  · intro vid hvid
    rw [hcl.closed, if_neg]
    · exact hvid
    · rintro rfl
      rw [hcl.stored] at hvid
      cases hvid

lemma ClosedPass.refl (hcons : h.Consistent) : ClosedPass h h [] :=
  ⟨hcons, rfl, fun _ hvid => absurd hvid not_mem_nil, fun _ hvid => hvid, fun _ hvid => hvid⟩

lemma mirrors_closeCalls {ids : List VersionId} (hm : Mirrors h ix) (hcons : h.Consistent)
    (hapart : OpenApart h edge) (hcommit : commit ≠ timestampMax)
    (hids : ∀ vid ∈ ids, ∀ u, h.getVersion vid = some u → u.entity = edge)
    (hrun : (each exec
      (ids.map fun vid => (.closeIfRecorded vid commit : HistoryCall EdgeId Endpoints))).run h =
        .ok () h') :
    Mirrors h' (adjacencyAfter search h ix (ids.map fun vid => .closeIfRecorded vid commit)) ∧
      ClosedPass h h' ids := by
  induction ids generalizing h ix with
  | nil =>
    cases hrun
    exact ⟨hm, .refl hcons⟩
  | cons vid ids ih =>
    obtain ⟨_, h₁, hhead, hrest⟩ := run_bind_eq_ok.mp hrun
    rw [map_cons, adjacencyAfter, hhead]
    dsimp only
    have hclose := hhead
    rw [exec, HistoricalStorage.closeIfRecorded, run_bind_of_ok run_get] at hclose
    by_cases hrec : h.isRecorded vid = true
    · rw [if_pos hrec] at hclose
      have hclose := run_modifyE_eq_ok.mp hclose
      obtain ⟨v, hv, hvrec⟩ : ∃ v, h.getVersion vid = some v ∧
          v.temporal.transactionTime.stop = timestampMax := by
        unfold isRecorded at hrec
        cases hv : h.getVersion vid with
        | none =>
          rw [hv] at hrec
          cases hrec
        | some v =>
          rw [hv] at hrec
          exact ⟨v, rfl, BiTemporalInterval.isCurrentlyRecorded_iff.mp hrec⟩
      obtain ⟨rfl, hcl⟩ := closesVersion_of_close hcons hv hvrec hclose
      have hedge : v.entity = edge := hids v.id mem_cons_self v hv
      subst hedge
      have hpass := hcl.closedPass hcons hcommit
      have hm₁ : Mirrors h₁ ((closeIfRecorded v.id commit).adjacency search h ix) := by
        rw [adjacency, if_pos hrec]
        exact mirrors_close hm hcl hapart
      have hids₁ : ∀ vid ∈ ids, ∀ u, h₁.getVersion vid = some u → u.entity = v.entity := by
        intro vid hvid u hu
        rw [hcl.closed] at hu
        split at hu
        · cases hu
          rfl
        · exact hids vid (mem_cons_of_mem _ hvid) u hu
      obtain ⟨hm', hpass'⟩ := ih hm₁ hpass.consistent (hcl.openApart hcommit hapart) hids₁ hrest
      refine ⟨hm', hpass'.consistent, hpass'.heads.trans hpass.heads, ?_, ?_, ?_⟩
      · intro vid hvid
        obtain rfl | hvid := mem_cons.mp hvid
        · exact hpass'.mono v.id (hpass.closed v.id mem_cons_self)
        · exact hpass'.closed vid hvid
      · exact fun vid hvid => hpass'.mono vid (hpass.mono vid hvid)
      · exact fun vid hvid => hpass'.fresh vid (hpass.fresh vid hvid)
    · rw [if_neg hrec] at hclose
      cases hclose
      have hskip : (closeIfRecorded vid commit).adjacency search h ix = ix := by
        rw [adjacency, if_neg hrec]
      rw [hskip]
      obtain ⟨hm', hpass'⟩ := ih hm hcons hapart
        (fun vid hvid => hids vid (mem_cons_of_mem _ hvid)) hrest
      refine ⟨hm', hpass'.consistent, hpass'.heads, ?_, hpass'.mono, hpass'.fresh⟩
      intro vid' hvid
      obtain rfl | hvid := mem_cons.mp hvid
      · exact hpass'.mono vid' (Bool.eq_false_iff.mpr hrec)
      · exact hpass'.closed vid' hvid

/-- A version recorded at `commit` is not behind a head that it would close. -/
def HeadSettled (h : EdgeVersions) (edge : EdgeId) (commit : Timestamp) : Prop :=
  ∀ prevId prev, h.heads edge = some prevId → h.getVersion prevId = some prev →
    ¬ (prev.temporal.transactionTime.stop = timestampMax ∧
      prev.temporal.transactionTime.start < commit)

/-- The store with one version added. -/
structure AddsVersion (h h' : EdgeVersions) (edge : EdgeId) (r : Record Endpoints) : Prop where
  added : ∃ u, h'.getVersion r.id = some u ∧ u.facts = (edge, r.temporal, r.content)
  facts : ∀ vid ≠ r.id,
    (h'.getVersion vid).map Version.facts = (h.getVersion vid).map Version.facts
  head : h'.heads edge = some r.id
  consistent : h'.Consistent

lemma addsVersion_of_add {r : Record Endpoints} (hcons : h.Consistent)
    (hsettled : HeadSettled h edge r.temporal.transactionTime.start)
    (hadd : addVersionWithInterval edge r.id r.temporal r.content h = .ok h') :
    AddsVersion h h' edge r := by
  unfold addVersionWithInterval at hadd
  dsimp only at hadd
  split at hadd
  · cases hadd
  cases hhead : h.heads edge with
  | none =>
    rw [hhead] at hadd
    cases hadd
    refine ⟨⟨_, by rw [pushHead_getVersion, if_pos rfl], rfl⟩, ?_, ?_, pushHead_consistent hcons⟩
    · intro vid hne
      rw [pushHead_getVersion, if_neg hne]
    · exact update_self ..
  | some prevId =>
    rw [hhead] at hadd
    dsimp only at hadd
    cases hprev : h.getVersion prevId with
    | none =>
      rw [hprev] at hadd
      cases hadd
    | some prev =>
      have hid := hcons prevId prev hprev
      subst hid
      have hnot : ¬ (prev.temporal.isCurrentlyRecorded = true ∧
          prev.temporal.transactionTime.start < r.temporal.transactionTime.start) := by
        rw [BiTemporalInterval.isCurrentlyRecorded_iff]
        exact hsettled prev.id prev hhead hprev
      rw [hprev] at hadd
      simp only [supersedeHead, closePreviousVersionIntervals, if_neg hnot, ne_eq,
        not_true_eq_false, if_false] at hadd
      cases hadd
      have happended := fun vid : VersionId => (appended_getVersion vid :
        (h.appended prev ⟨r.id, edge, r.temporal, r.content, some prev.id, none⟩).getVersion vid = _)
      have hcons' : (h.appended prev
          ⟨r.id, edge, r.temporal, r.content, some prev.id, none⟩).Consistent :=
        appended_consistent hcons
      refine ⟨⟨_, (happended r.id).trans (if_pos rfl), rfl⟩, ?_, ?_, hcons'⟩
      · intro vid hne
        refine (congrArg (Option.map facts) (happended vid)).trans ?_
        rw [if_neg hne]
        split
        · rename_i heq
          rw [heq, hprev]
          rfl
        · rfl
      · exact update_self ..

lemma supersedeEntry_eq {temporal : BiTemporalInterval} {ends : Endpoints}
    (hsettled : HeadSettled h edge temporal.transactionTime.start) :
    supersedeEntry h edge vid temporal ends ix = ix := by
  unfold supersedeEntry
  split
  · rfl
  · rename_i prev hprev
    obtain ⟨prevId, hhead, hprev⟩ := bind_eq_some_iff.mp hprev
    have hnot : ¬ (prev.temporal.isCurrentlyRecorded = true ∧
        prev.temporal.transactionTime.start < temporal.transactionTime.start) := by
      rw [BiTemporalInterval.isCurrentlyRecorded_iff]
      exact hsettled prevId prev hhead hprev
    simp only [closePreviousVersionIntervals, if_neg hnot, ne_eq, not_true_eq_false, if_false]

section Add

variable {r : Record Endpoints} (hm : Mirrors h ix) (hadds : AddsVersion h h' edge r)
  (hfresh : h.getVersion r.id = none)

include hadds hfresh in
lemma shows_of_addsVersion (hs : Shows h node vid x) : Shows h' node vid x := by
  refine hs.of_facts (hadds.facts vid ?_)
  rintro rfl
  obtain ⟨u, hu, -⟩ := hs
  rw [hfresh] at hu
  cases hu

include hadds in
lemma mem_of_addsVersion {vids : List VersionId}
    (hall : ∀ vid u, h.getVersion vid = some u → u.content.ends.source = node →
      u.temporal.validTime.start < u.temporal.validTime.stop → vid ∈ vids)
    {u : Version EdgeId Endpoints} (hu : h'.getVersion vid = some u)
    (hsource : u.content.ends.source = node)
    (hlt : u.temporal.validTime.start < u.temporal.validTime.stop) :
    vid ∈ vids ∨ vid = r.id ∧ u.content = r.content ∧ u.temporal = r.temporal := by
  by_cases hvid : vid = r.id
  · subst hvid
    obtain ⟨u', hu', hfacts⟩ := hadds.added
    rw [hu] at hu'
    cases hu'
    simp only [facts, Prod.mk.injEq] at hfacts
    exact .inr ⟨rfl, hfacts.2.2, hfacts.2.1⟩
  · left
    have hfacts := hadds.facts vid hvid
    rw [hu, map_some] at hfacts
    obtain ⟨u₀, hu₀, heq⟩ := map_eq_some_iff.mp hfacts.symm
    simp only [facts, Prod.mk.injEq] at heq
    exact hall vid u₀ hu₀ (by rw [heq.2.2]; exact hsource) (by rw [heq.2.1]; exact hlt)

include hm hadds hfresh

lemma mirrors_addTombstone
    (hempty : r.temporal.validTime.stop ≤ r.temporal.validTime.start) : Mirrors h' ix := by
  intro node
  obtain ⟨vids, hnodup, hshows, hall⟩ := hm node
  refine ⟨vids, hnodup, hshows.imp fun _ _ hs => shows_of_addsVersion hadds hfresh hs, ?_⟩
  intro vid u hu hsource hlt
  obtain hmem | ⟨-, -, htemporal⟩ := mem_of_addsVersion hadds hall hu hsource hlt
  · exact hmem
  · rw [htemporal] at hlt
    exact absurd hlt (not_lt.mpr hempty)

lemma mirrors_insert (hfits : (addCall edge false r).Fits ix) :
    Mirrors h' (ix.call search (.insertEdge edge r.content.ends.source r.content.ends.target
      r.content.label r.temporal.validTime.start r.temporal.validTime.stop
      r.temporal.transactionTime.start r.temporal.transactionTime.stop)) := by
  obtain ⟨hout, hin⟩ := hfits
  simp only [call, insertEdge, if_neg (not_le.mpr hout), if_neg (not_le.mpr hin)]
  obtain ⟨u, hu, hfacts⟩ := hadds.added
  simp only [facts, Prod.mk.injEq] at hfacts
  obtain ⟨hedge, htemporal, hcontent⟩ := hfacts
  intro node
  obtain ⟨vids, hnodup, hshows, hall⟩ := hm node
  by_cases hnode : node = r.content.ends.source
  · subst hnode
    dsimp only
    rw [update_self, insertEntry]
    dsimp only
    generalize search.position _ _ = pos
    have hnot : r.id ∉ vids := by
      intro hmem
      obtain ⟨i, hi, hget⟩ := getElem_of_mem hmem
      obtain ⟨hlen, hall₂⟩ := forall₂_iff_get.mp hshows
      obtain ⟨u₀, hu₀, -⟩ := hall₂ i hi (hlen ▸ hi)
      rw [get_eq_getElem, hget, hfresh] at hu₀
      cases hu₀
    refine ⟨vids.take pos ++ r.id :: vids.drop pos, ?_, ?_, ?_⟩
    · refine (perm_middle.nodup_iff).mpr (nodup_cons.mpr ⟨?_, ?_⟩)
      · rw [take_append_drop]
        exact hnot
      · rw [take_append_drop]
        exact hnodup
    · have hshows' := hshows.imp fun _ _ hs => shows_of_addsVersion hadds hfresh hs
      refine rel_append (forall₂_take pos hshows')
        (.cons ⟨u, hu, by rw [hcontent], ?_⟩ (forall₂_drop pos hshows'))
      rw [Version.adjacencyEntry, hedge, htemporal, hcontent]
    · intro vid u hu hsource hlt
      obtain hmem | ⟨rfl, -, -⟩ := mem_of_addsVersion hadds hall hu hsource hlt
      · refine perm_middle.mem_iff.mpr (mem_cons_of_mem _ ?_)
        rw [take_append_drop]
        exact hmem
      · exact mem_append_right _ mem_cons_self
  · refine ⟨vids, hnodup, ?_, ?_⟩
    · dsimp only
      rw [update_of_ne hnode]
      exact hshows.imp fun _ _ hs => shows_of_addsVersion hadds hfresh hs
    · intro vid u hu hsource hlt
      obtain hmem | ⟨-, hcontent, -⟩ := mem_of_addsVersion hadds hall hu hsource hlt
      · exact hmem
      · rw [hcontent] at hsource
        exact absurd hsource.symm hnode

end Add

/-- Versions that one commit may add: their ids are fresh, and a tombstone holds at no time. -/
structure Addable (h : EdgeVersions) (commit : Timestamp) (isTombstone : Bool)
    (rs : List (Record Endpoints)) : Prop where
  start : ∀ r ∈ rs, r.temporal.transactionTime.start = commit
  fresh : ∀ r ∈ rs, h.getVersion r.id = none
  nodup : (rs.map Record.id).Nodup
  tombstone : isTombstone = true →
    ∀ r ∈ rs, r.temporal.validTime.stop ≤ r.temporal.validTime.start

lemma Addable.singleton {isTombstone : Bool} {r : Record Endpoints}
    (hstart : r.temporal.transactionTime.start = commit) (hfresh : h.getVersion r.id = none)
    (htombstone : isTombstone = true → r.temporal.validTime.stop ≤ r.temporal.validTime.start) :
    Addable h commit isTombstone [r] :=
  ⟨forall_mem_singleton.mpr hstart, forall_mem_singleton.mpr hfresh, nodup_singleton _,
    fun ht => forall_mem_singleton.mpr (htombstone ht)⟩

/-- **Adding versions** of one commit keeps the mirror. -/
lemma mirrors_addCalls {isTombstone : Bool} (hm : Mirrors h ix) (hcons : h.Consistent)
    (hsettled : HeadSettled h edge commit) (hrs : Addable h commit isTombstone rs)
    (hfit : CallsFit search h ix (rs.map (addCall edge isTombstone)))
    (hrun : (each exec (rs.map (addCall edge isTombstone))).run h = .ok () h') :
    Mirrors h' (adjacencyAfter search h ix (rs.map (addCall edge isTombstone))) := by
  induction rs generalizing h ix with
  | nil =>
    cases hrun
    exact hm
  | cons r rs ih =>
    obtain ⟨_, h₁, hhead, hrest⟩ := run_bind_eq_ok.mp hrun
    rw [map_cons, CallsFit, hhead] at hfit
    rw [map_cons, adjacencyAfter, hhead]
    dsimp only at hfit ⊢
    obtain ⟨hstart, hcommit⟩ := forall_mem_cons.mp hrs.start
    obtain ⟨hfreshr, hfresh⟩ := forall_mem_cons.mp hrs.fresh
    have hsettled' : HeadSettled h edge r.temporal.transactionTime.start := by
      rw [hstart]
      exact hsettled
    have hadds := addsVersion_of_add hcons hsettled' (run_modifyE_eq_ok.mp hhead)
    have hm₁ : Mirrors h₁ ((addCall edge isTombstone r).adjacency search h ix) := by
      rw [addCall, adjacency, supersedeEntry_eq hsettled']
      cases isTombstone with
      | true => exact mirrors_addTombstone hm hadds hfreshr (hrs.tombstone rfl r mem_cons_self)
      | false => exact mirrors_insert hm hadds hfreshr hfit.1
    obtain ⟨hnot, hnodup⟩ := nodup_cons.mp hrs.nodup
    refine ih hm₁ hadds.consistent ?_ ⟨hcommit, ?_, hnodup,
      fun ht x hx => hrs.tombstone ht x (mem_cons_of_mem _ hx)⟩ hfit.2 hrest
    · -- the new head is of this commit
      intro prevId prev hprevId hprev
      rw [hadds.head] at hprevId
      cases hprevId
      obtain ⟨u, hu, hfacts⟩ := hadds.added
      rw [hu] at hprev
      cases hprev
      simp only [facts, Prod.mk.injEq] at hfacts
      rw [hfacts.2.1, hstart]
      exact fun hn => lt_irrefl _ hn.2
    · intro x hx
      have hne : x.id ≠ r.id := by
        intro heq
        exact hnot (heq ▸ mem_map_of_mem hx)
      have hfacts := hadds.facts x.id hne
      rw [hfresh x hx] at hfacts
      exact map_eq_none_iff.mp hfacts

lemma mirrors_indexCalls (hm : Mirrors h ix)
    (hrun : (each exec (rs.map (indexCall edge))).run h = .ok () h') :
    Mirrors h' (adjacencyAfter search h ix (rs.map (indexCall edge))) := by
  induction rs generalizing h with
  | nil =>
    cases hrun
    exact hm
  | cons r rs ih =>
    obtain ⟨_, h₁, hhead, hrest⟩ := run_bind_eq_ok.mp hrun
    rw [map_cons, adjacencyAfter, hhead]
    refine ih ?_ hrest
    have hversions : h₁.versions = h.versions := by
      have hindex := run_modifyE_eq_ok.mp hhead
      unfold EntityStore.insertIndexVersion at hindex
      split at hindex
      · cases hindex
        rfl
      · obtain ⟨ix', -, hindex⟩ := except_bind_eq_ok.mp hindex
        cases hindex
        rfl
    have hget : h₁.getVersion = h.getVersion := by
      funext vid
      rw [getVersion, getVersion, hversions]
    unfold Mirrors Shows
    rw [hget]
    exact hm

end Calls

end Aletheia
