import Mathlib.Data.List.TakeWhile
import Aletheia.AdjacencyMirror

/-!
# Outgoing edges at a time

The history answers which edges left a node at a time from the temporal adjacency index. Where the
index mirrors the history the answer is the set of edges whose version at that time leaves the
node, unless a matching edge is hidden behind an ended one.
-/

namespace Aletheia

open HistoricalStorage TemporalAdjacencyIndex List Option

/-- `HistoricalStorage::get_outgoing_edges_at_time`, with the index if one is configured. -/
def getOutgoingEdgesAtTime (index : Option TemporalAdjacencyIndex) (source : NodeId)
    (validTime txTime : Timestamp) : List EdgeId :=
  match index with
  | some ix => ix.getOutgoingAtTime source validTime txTime
  | none => []

/-- The index after the committed writes of a run from `s`. -/
def indexAfter (search : BinarySearch) : EntityStore EdgeId Endpoints → TemporalAdjacencyIndex →
    List (CommittedWrite EdgeId Endpoints) → TemporalAdjacencyIndex
  | _, ix, [] => ix
  | s, ix, w :: ws =>
    match w.write.calls s w.stamp, (w.write.exec w.txId w.stamp).run s with
    | .ok cs, .ok () s' => indexAfter search s' (adjacencyAfter search s.history ix cs) ws
    | _, _ => ix

/-- Every insert of the run finds room. -/
def RunFits (search : BinarySearch) : EntityStore EdgeId Endpoints → TemporalAdjacencyIndex →
    List (CommittedWrite EdgeId Endpoints) → Prop
  | _, _, [] => True
  | s, ix, w :: ws =>
    match w.write.calls s w.stamp, (w.write.exec w.txId w.stamp).run s with
    | .ok cs, .ok () s' => CallsFit search s.history ix cs ∧
        RunFits search s' (adjacencyAfter search s.history ix cs) ws
    | _, _ => True

instance decidableRunFits (search : BinarySearch) : (s : EntityStore EdgeId Endpoints) →
    (ix : TemporalAdjacencyIndex) → (ws : List (CommittedWrite EdgeId Endpoints)) →
    Decidable (RunFits search s ix ws)
  | _, _, [] => isTrue trivial
  | s, ix, w :: ws => by
    unfold RunFits
    split
    · rename_i cs s' _ _
      have := decidableRunFits search s' (adjacencyAfter search s.history ix cs) ws
      infer_instance
    · infer_instance

/-- The edges whose version at the time leaves the node. -/
def LeavesAt (h : EdgeVersions) (node : NodeId) (v s : Timestamp) (edge : EdgeId) : Prop :=
  ∃ vid u, h.findVersionAtTime edge v s = some vid ∧ h.getVersion vid = some u ∧
    u.content.ends.source = node

variable {s s' : EntityStore EdgeId Endpoints} {h : EdgeVersions} {ix : TemporalAdjacencyIndex}
  {edge : EdgeId} {clock clock' : Timestamp} {search : BinarySearch}

lemma forall₂_exists_right {α β : Type} {R : α → β → Prop} {l : List α} {l' : List β}
    (h : List.Forall₂ R l l') : ∀ a ∈ l, ∃ b ∈ l', R a b := by
  induction h with
  | nil => exact fun a ha => absurd ha not_mem_nil
  | cons hab _ ih =>
    rw [forall_mem_cons]
    refine ⟨⟨_, mem_cons_self, hab⟩, fun a ha => ?_⟩
    obtain ⟨b, hb, hr⟩ := ih a ha
    exact ⟨b, mem_cons_of_mem _ hb, hr⟩

lemma isValidAt_adjacencyEntry {u : Version EdgeId Endpoints} {v t : Timestamp} :
    u.adjacencyEntry.isValidAt v t = true ↔ u.entry.Visible v t := by
  rw [isValidAt_iff, ← isVisibleAt_iff_entry, BiTemporalInterval.isVisibleAt_iff, and_assoc]
  rfl

lemma exists_entry_iff_leavesAt {l : List (Version EdgeId Endpoints)} (hm : Mirrors h ix)
    (hcons : h.Consistent) (hl : Chain h edge l) (hix : Indexed h edge l)
    (hwf : Timeline.WellFormed (l.map Version.entry) clock) {node : NodeId} {v t : Timestamp} :
    (∃ x ∈ ix.outgoing node, x.edgeId = edge ∧ x.isValidAt v t = true) ↔
      LeavesAt h node v t edge := by
  obtain ⟨vids, -, hshows, hall⟩ := hm node
  constructor
  · rintro ⟨x, hx, rfl, hvalid⟩
    obtain ⟨vid, -, u, hu, hsource, rfl⟩ := forall₂_exists_right (List.Forall₂.flip hshows) x hx
    have hid := hcons vid u hu
    refine ⟨vid, u, ?_, hu, hsource⟩
    have hmem : u ∈ l := (hl.mem u).mpr ⟨hid ▸ hu, rfl⟩
    exact (findVersionAtTime_eq_some_iff hl hix hwf).mpr
      ⟨u, hmem, isValidAt_adjacencyEntry.mp hvalid, hid⟩
  · rintro ⟨vid, u, hfind, hu, hsource⟩
    obtain ⟨u', hmem, hvisible, rfl⟩ := (findVersionAtTime_eq_some_iff hl hix hwf).mp hfind
    obtain rfl : u' = u := some.inj ((hl.stored hmem).symm.trans hu)
    -- a visible version holds somewhere, so it has an entry
    have hne : u'.temporal.validTime.start < u'.temporal.validTime.stop :=
      hvisible.1.1.trans_lt hvisible.1.2
    obtain ⟨x, hx, w, hw, -, rfl⟩ :=
      forall₂_exists_right hshows u'.id (hall u'.id u' hu hsource hne)
    obtain rfl : u' = w := some.inj (hu.symm.trans hw)
    exact ⟨_, hx, hl.entity_eq hmem, isValidAt_adjacencyEntry.mpr hvisible⟩

lemma sorted_adjacency (search : BinarySearch) (h : EdgeVersions) (hs : ix.Sorted)
    (c : HistoryCall EdgeId Endpoints) : (c.adjacency search h ix).Sorted := by
  have hclose : ∀ vid stop, (closeVersionEntry h vid stop ix).Sorted := by
    intro vid stop
    unfold closeVersionEntry
    split
    · exact hs
    · exact sorted_closeEdgeTransactionTimeOf hs _ _ _ _ _ _
  cases c with
  | closeIfRecorded vid stop =>
    rw [HistoryCall.adjacency]
    split
    · exact hclose vid stop
    · exact hs
  | close vid stop => exact hclose vid stop
  | add edge vid temporal content isTombstone =>
    have hsuper : (supersedeEntry h edge vid temporal content.ends ix).Sorted := by
      unfold supersedeEntry
      split
      · exact hs
      · split
        · exact hs
        · split
          · exact sorted_closeEdgeTransactionTimeOf hs _ _ _ _ _ _
          · exact hs
    rw [HistoryCall.adjacency]
    split
    · exact hsuper
    · exact sorted_call search hsuper _
  | index edge slice => exact hs

lemma sorted_adjacencyAfter (cs : List (HistoryCall EdgeId Endpoints)) :
    ∀ {h : EdgeVersions} {ix : TemporalAdjacencyIndex}, ix.Sorted →
      (adjacencyAfter search h ix cs).Sorted := by
  induction cs with
  | nil => exact fun hs => hs
  | cons c cs ih =>
    intro h ix hs
    unfold adjacencyAfter
    split
    · exact ih (sorted_adjacency search h hs c)
    · exact hs

/-- **Every run with room keeps the index an ordered mirror of the history.** -/
theorem mirrors_runFrom (ws : List (CommittedWrite EdgeId Endpoints)) :
    ∀ {s s' : EntityStore EdgeId Endpoints} {ix : TemporalAdjacencyIndex}
      {clock clock' : Timestamp} {p : EdgeId → Status × Option Timestamp},
      (∀ k, Tracked s clock k (p k)) → Mirrors s.history ix → ix.Sorted → UpdatesLive s ws →
      RunFits search s ix ws → runFrom s clock ws = some (s', clock') →
      Mirrors s'.history (indexAfter search s ix ws) ∧ (indexAfter search s ix ws).Sorted := by
  induction ws with
  | nil =>
    intro s s' ix clock clock' p _ hm hs _ _ hrun
    cases hrun
    exact ⟨hm, hs⟩
  | cons w ws ih =>
    intro s s' ix clock clock' p htr hm hs hlive hfits hrun
    obtain ⟨hle, hfresh, s₁, hexec, hrun⟩ := runFrom_cons hrun
    obtain ⟨cs, hcs, -⟩ := run_calls hexec
    obtain ⟨-, l', -, -, hadv, href, -⟩ :=
      advances_exec (htr w.write.key) hle w.stamp.property hfresh hlive.1 hexec
    have htr₁ := hadv.tracked htr hle w.stamp.property
      (q := (w.write.status, w.write.least (p w.write.key).2)) href
    have hlive₁ := hlive.2
    simp only [hexec] at hlive₁
    simp only [RunFits, hcs, hexec] at hfits
    simp only [indexAfter, hcs, hexec]
    exact ih htr₁ (mirrors_exec hm hfits.1 (htr w.write.key) w.stamp.property hfresh hlive.1 hcs
      hexec) (sorted_adjacencyAfter cs hs) hlive₁ hfits.2 hrun

lemma mirrors_init {maxVersions gen limit : ℕ} {ixLimit : Option ℕ} {vs : List VectorIndex} :
    Mirrors (EntityStore.init maxVersions ixLimit vs gen : EntityStore EdgeId Endpoints).history
      (.new limit) := by
  intro node
  refine ⟨[], nodup_nil, .nil, ?_⟩
  intro vid u hu
  exact nomatch (Finmap.lookup_empty vid).symm.trans hu

/-- **Queries at a time are exact where nothing is hidden.** On every index that calls built, each
query returns exactly the edges with a matching entry if and only if no such edge is hidden. After
every run of committed writes whose inserts found room, the outgoing edges of a node at a time are
the edges whose version at that time leaves the node, again if and only if none is hidden. -/
theorem edgesAtTime_iff_unhidden (search : BinarySearch) (limit : ℕ) :
    (∀ (cs : List Call) (node : NodeId) (label : InternedString) (v t : Timestamp),
      (Exact (fun _ => true) (((new limit).calls search cs).outgoing node) v t
          (((new limit).calls search cs).getOutgoingAtTime node v t) ↔
        Unhidden (fun _ => true) (((new limit).calls search cs).outgoing node) v t) ∧
      (Exact (fun _ => true) (((new limit).calls search cs).incoming node) v t
          (((new limit).calls search cs).getIncomingAtTime node v t) ↔
        Unhidden (fun _ => true) (((new limit).calls search cs).incoming node) v t) ∧
      (Exact (fun x => x.label = label) (((new limit).calls search cs).outgoing node) v t
          (((new limit).calls search cs).getOutgoingWithLabelAtTime node label v t) ↔
        Unhidden (fun x => x.label = label) (((new limit).calls search cs).outgoing node) v t)) ∧
    ∀ (maxVersions gen : ℕ) (indexLimit : Option ℕ) (vs : List VectorIndex)
      (clock : ValidTimestamp) (ws : List (CommittedWrite EdgeId Endpoints))
      (s : EntityStore EdgeId Endpoints) (clock' : Timestamp),
      UpdatesLive (.init maxVersions indexLimit vs gen) ws →
      RunFits search (.init maxVersions indexLimit vs gen) (.new limit) ws →
      runFrom (.init maxVersions indexLimit vs gen) clock ws = some (s, clock') →
      ∀ (node : NodeId) (v t : Timestamp),
        (∀ edge, edge ∈ getOutgoingEdgesAtTime
            (some (indexAfter search (.init maxVersions indexLimit vs gen) (.new limit) ws))
            node v t ↔ LeavesAt s.history node v t edge) ↔
          Unhidden (fun _ => true)
            ((indexAfter search (.init maxVersions indexLimit vs gen) (.new limit) ws).outgoing node)
            v t := by
  constructor
  · intro cs node label v t
    obtain ⟨hout, hin⟩ := sorted_calls search (sorted_new limit) cs node
    exact ⟨exact_iff_unhidden hout v t, exact_iff_unhidden hin v t, exact_iff_unhidden hout v t⟩
  · intro maxVersions gen indexLimit vs clock ws s clock' hlive hfits hrun node v t
    obtain ⟨hm, hs⟩ := mirrors_runFrom ws (fun k => tracked_init k) mirrors_init
      (sorted_new limit) hlive hfits hrun
    obtain ⟨hc, htr⟩ := tracked_runFrom ws (fun k => tracked_init k) clock.property hlive hrun
    rw [← exact_iff_unhidden (hs node).1 v t]
    refine forall_congr' fun edge => iff_congr Iff.rfl ?_
    obtain ⟨l, hr, href⟩ := htr edge
    rw [← exists_entry_iff_leavesAt hm hr.consistent hr.chain hr.indexed (href.wellFormed hc)]
    simp only [true_and]

lemma le_of_mem_dropWhile {keys : List Timestamp} {key : Timestamp}
    (h : keys.Pairwise (· ≤ ·)) : ∀ k ∈ keys.dropWhile (· < key), key ≤ k := by
  induction keys with
  | nil => exact fun k hk => absurd hk not_mem_nil
  | cons a keys ih =>
    obtain ⟨hle, hrest⟩ := pairwise_cons.mp h
    by_cases ha : a < key
    · rw [dropWhile_cons_of_pos (by simpa using ha)]
      exact ih hrest
    · rw [dropWhile_cons_of_neg (by simpa using ha)]
      rw [forall_mem_cons]
      exact ⟨not_lt.mp ha, fun k hk => (not_lt.mp ha).trans (hle k hk)⟩

/-- A binary search that inserts before equal keys. -/
def BinarySearch.first : BinarySearch where
  position keys key := (keys.takeWhile (· < key)).length
  before := by
    intro keys key _ k hk
    have htake := List.prefix_iff_eq_take.mp (List.takeWhile_prefix (p := (· < key)) (l := keys))
    rw [← htake] at hk
    have hlt : k < key := by simpa using List.mem_takeWhile_imp hk
    exact hlt.le
  after := by
    intro keys key hkeys k hk
    have htake := List.prefix_iff_eq_take.mp (List.takeWhile_prefix (p := (· < key)) (l := keys))
    have hsplit : keys.takeWhile (· < key) ++ keys.drop (keys.takeWhile (· < key)).length =
        keys.takeWhile (· < key) ++ keys.dropWhile (· < key) := by
      rw [List.takeWhile_append_dropWhile]
      nth_rewrite 1 [htake]
      exact List.take_append_drop _ _
    rw [List.append_cancel_left hsplit] at hk
    exact le_of_mem_dropWhile hkeys k hk

/-- An edge holds from 0 on; a second one of the same node from 5 on, until it is retracted as of
10. -/
def retractedBehind : List (CommittedWrite EdgeId Endpoints) :=
  [⟨⟨1⟩, .ofWallclock 1, .create ⟨0⟩ (.ofWallclock 0) ⟨0, ∅, ⟨⟨0⟩, ⟨1⟩⟩, none⟩⟩,
    ⟨⟨2⟩, .ofWallclock 2, .create ⟨1⟩ (.ofWallclock 5) ⟨0, ∅, ⟨⟨0⟩, ⟨1⟩⟩, none⟩⟩,
    ⟨⟨3⟩, .ofWallclock 3, .retract ⟨1⟩ (.ofWallclock 10) none⟩]

/-- The calls that enter the two edges with their final valid intervals. -/
def hidingCalls : List Call :=
  [.insertEdge ⟨0⟩ ⟨0⟩ ⟨1⟩ 0 ⟨0, 0⟩ timestampMax ⟨1, 0⟩ timestampMax,
    .insertEdge ⟨1⟩ ⟨0⟩ ⟨1⟩ 0 ⟨5, 0⟩ ⟨10, 0⟩ ⟨2, 0⟩ timestampMax]

/-- At 15 the first edge is not found, because the walk stops at the second one. -/
theorem edgesAtTime_misses_hidden :
    (∃ x ∈ ((new 1000).calls .first hidingCalls).outgoing ⟨0⟩, x.edgeId = ⟨0⟩ ∧
        x.isValidAt ⟨15, 0⟩ ⟨3, 0⟩ = true) ∧
      ((new 1000).calls .first hidingCalls).getOutgoingAtTime ⟨0⟩ ⟨15, 0⟩ ⟨3, 0⟩ = [] ∧
      ((new 1000).calls .first hidingCalls).getIncomingAtTime ⟨1⟩ ⟨15, 0⟩ ⟨3, 0⟩ = [] ∧
      ((new 1000).calls .first hidingCalls).getOutgoingWithLabelAtTime ⟨0⟩ 0 ⟨15, 0⟩ ⟨3, 0⟩ = [] ∧
      UpdatesLive (.init 1000 (some 1000000) [] 0) retractedBehind ∧
      RunFits .first (.init 1000 (some 1000000) [] 0) (.new 1000) retractedBehind ∧
      ∃ s clock, runFrom (.init 1000 (some 1000000) [] 0) ⟨0, 0⟩ retractedBehind =
          some (s, clock) ∧
        getOutgoingEdgesAtTime (some (indexAfter .first (.init 1000 (some 1000000) [] 0)
          (.new 1000) retractedBehind)) ⟨0⟩ ⟨15, 0⟩ ⟨3, 0⟩ = [] ∧
        LeavesAt s.history ⟨0⟩ ⟨15, 0⟩ ⟨3, 0⟩ ⟨0⟩ := by
  refine ⟨by decide +kernel, by decide +kernel, by decide +kernel, by decide +kernel,
    by decide +kernel, by decide +kernel, ?_⟩
  have hread : ((runFrom (.init 1000 (some 1000000) [] 0) ⟨0, 0⟩ retractedBehind).map fun r =>
      (r.1.history.findVersionAtTime ⟨0⟩ ⟨15, 0⟩ ⟨3, 0⟩,
        (r.1.history.getVersion (.new 0)).map fun u => u.content.ends.source)) =
      some (some (.new 0), some ⟨0⟩) := by
    decide +kernel
  rcases hrun : runFrom (.init 1000 (some 1000000) [] 0) ⟨0, 0⟩ retractedBehind with _ | ⟨s, clock⟩
  · rw [hrun] at hread
    cases hread
  · rw [hrun, map_some, some.injEq, Prod.mk.injEq] at hread
    obtain ⟨u, hu, hsource⟩ := map_eq_some_iff.mp hread.2
    exact ⟨s, clock, rfl, by decide +kernel, .new 0, u, hread.1, hu, hsource⟩

/-- At 7 both edges hold, and both are found. -/
theorem edgesAtTime_finds_both :
    ∃ s clock, runFrom (.init 1000 (some 1000000) [] 0) ⟨0, 0⟩ (retractedBehind.take 2) =
        some (s, clock) ∧
      ∀ edge, edge ∈ getOutgoingEdgesAtTime (some (indexAfter .first
          (.init 1000 (some 1000000) [] 0) (.new 1000) (retractedBehind.take 2)))
          ⟨0⟩ ⟨7, 0⟩ ⟨3, 0⟩ ↔ LeavesAt s.history ⟨0⟩ ⟨7, 0⟩ ⟨3, 0⟩ edge := by
  have hsome : (runFrom (.init 1000 (some 1000000) [] 0) ⟨0, 0⟩
    (retractedBehind.take 2)).isSome = true := by decide +kernel
  obtain ⟨⟨s, clock⟩, hrun⟩ := isSome_iff_exists.mp hsome
  refine ⟨s, clock, hrun, ((edgesAtTime_iff_unhidden .first 1000).2 1000 0 (some 1000000) []
    ⟨⟨0, 0⟩, by decide⟩ (retractedBehind.take 2) s clock (by decide +kernel) (by decide +kernel)
    hrun ⟨0⟩ ⟨7, 0⟩ ⟨3, 0⟩).mpr ?_⟩
  have hentries : (indexAfter .first (.init 1000 (some 1000000) [] 0) (.new 1000)
      (retractedBehind.take 2)).outgoing ⟨0⟩ =
      [⟨⟨0⟩, ⟨1⟩, 0, ⟨0, 0⟩, timestampMax, ⟨1, 0⟩, timestampMax⟩,
        ⟨⟨1⟩, ⟨1⟩, 0, ⟨5, 0⟩, timestampMax, ⟨2, 0⟩, timestampMax⟩] := by
    decide +kernel
  rw [hentries]
  intro x hx _ hvalid
  obtain ⟨before, after, heq⟩ := append_of_mem hx
  refine ⟨before, x, after, heq, rfl, rfl, hvalid, ?_⟩
  intro z hz _
  have hmem := heq ▸ mem_append_right before (mem_cons_of_mem x hz)
  have hopen : z.validTo = timestampMax := by
    simp only [mem_cons, not_mem_nil, or_false] at hmem
    rcases hmem with rfl | rfl <;> rfl
  rw [hopen]
  decide

end Aletheia
