import Mathlib.Data.List.Induction
import Aletheia.WalFrames

/-!
# Frames with lost entries

A failed flush drops entries from the middle of the log. The checks on a frame's LSNs reject every
frame whose `BeginTx` is read and that has lost another entry. When the `BeginTx` itself is lost, the
writes of the frame are discarded only if they happen to fall into another frame that is still open.
-/

namespace Aletheia

open Function List

variable {D C : Type}

/-- A frame as it was appended to the log. -/
structure FramedTx (D : Type) where
  transaction : LoggedTransaction D
  firstLsn : ℕ
  /-- when each of the entries was serialized -/
  stamps : ℕ → Timestamp

/-- An entry that commits by itself. -/
structure ControlEntry (C : Type) where
  lsn : ℕ
  timestamp : Timestamp
  op : C
  framed : Bool

inductive LogItem (D C : Type) where
  | frame (f : FramedTx D)
  | control (c : ControlEntry C)

namespace FramedTx

variable (C) (f : FramedTx D)

def beginEntry : WalEntry D C := ⟨f.firstLsn, f.stamps 0, .beginTx f.transaction.txId, true⟩

def opEntries : List (WalEntry D C) :=
  f.transaction.writes.zipIdx.map fun w => ⟨f.firstLsn + 1 + w.2, f.stamps (1 + w.2), .data w.1, true⟩

def commitLsn : ℕ := f.firstLsn + 1 + f.transaction.writes.length

def commitEntry : WalEntry D C :=
  ⟨f.commitLsn, f.stamps (1 + f.transaction.writes.length), .commitTx f.transaction.txId
    (f.transaction.writes.length % 2 ^ 32) f.transaction.commitTimestamp, true⟩

def entries : List (WalEntry D C) := f.beginEntry C :: f.opEntries C ++ [f.commitEntry C]

lemma entries_operations : (f.entries C).map (·.operation) = f.transaction.frame C := by
  simp only [entries, opEntries, LoggedTransaction.frame, beginEntry, commitEntry, map_append,
    map_cons, map_nil, map_map]
  congr 2
  conv_rhs => rw [← zipIdx_map_fst 0 f.transaction.writes, map_map]
  rfl

end FramedTx

namespace LogItem

def entries : LogItem D C → List (WalEntry D C)
  | frame f => f.entries C
  | control c => [⟨c.lsn, c.timestamp, .control c.op, c.framed⟩]

def firstLsn : LogItem D C → ℕ
  | frame f => f.firstLsn
  | control c => c.lsn

def endLsn : LogItem D C → ℕ
  | frame f => f.commitLsn + 1
  | control c => c.lsn + 1

end LogItem

/-- What was appended to the log, in LSN order. -/
structure LogStream (D C : Type) where
  items : List (LogItem D C)
  ordered : items.Pairwise fun a b => a.endLsn ≤ b.firstLsn

def LogStream.entries (stream : LogStream D C) : List (WalEntry D C) :=
  stream.items.flatMap LogItem.entries

/-! ### What recovery gives back of a frame -/

/-- The operation with the LSN it was logged under. -/
def WalEntry.tagged (e : WalEntry D C) : WalEntry (ℕ × D) C :=
  ⟨e.lsn, e.timestamp, match e.operation with
    | .beginTx txId => .beginTx txId
    | .commitTx txId count commit => .commitTx txId count commit
    | .control op => .control op
    | .data op => .data (e.lsn, op), e.framed⟩

/-- The operation if it was logged as one of the frame. -/
def FramedTx.own (f : FramedTx D) :
    WalOperation (ℕ × D) C × Timestamp → Option (WalOperation D C × Timestamp)
  | (.data (lsn, op), timestamp) =>
    if f.firstLsn ≤ lsn ∧ lsn ≤ f.commitLsn then some (.data op, timestamp) else none
  | _ => none

/-- The operations of the frame among those that recovery applies. -/
def FramedTx.resolved (f : FramedTx D) (survivors : List (WalEntry D C)) :
    List (WalOperation D C × Timestamp) :=
  (resolveTransactionFrames (survivors.map WalEntry.tagged)).filterMap f.own

/-- **All or nothing**, for every transaction of the stream. -/
def AllOrNothing (stream : LogStream D C) (survivors : List (WalEntry D C)) : Prop :=
  ∀ f, .frame f ∈ stream.items →
    f.resolved survivors = f.transaction.replayed C ∨ f.resolved survivors = []

/-- The transactions given back are exactly those whose marker survives. -/
def ResolvesCommitted (stream : LogStream D C) (survivors : List (WalEntry D C)) : Prop :=
  ∀ f, .frame f ∈ stream.items →
    f.resolved survivors = if f.commitLsn ∈ survivors.map (·.lsn) then f.transaction.replayed C else []

/-! ### LSNs on the operations -/

def WalOperation.untagged : WalOperation (ℕ × D) C → WalOperation D C
  | .beginTx txId => .beginTx txId
  | .commitTx txId count commit => .commitTx txId count commit
  | .control op => .control op
  | .data op => .data op.2

/-- The scan of entries under their LSNs, without the LSNs. -/
def FrameScan.untagged (s : FrameScan (ℕ × D) C) : FrameScan D C :=
  ⟨s.resolved.map fun x => (x.1.untagged, x.2), s.pending.map fun x => (x.1, x.2.untagged), s.openTx⟩

lemma untagged_resolveEntry (s : FrameScan (ℕ × D) C) (e : WalEntry D C) :
    (resolveEntry s e.tagged).untagged = resolveEntry s.untagged e := by
  have hcontiguous : lsnsContiguous (s.pending.map fun x => (x.1, x.2.untagged)) =
      lsnsContiguous s.pending := by
    simp only [lsnsContiguous, ← map_tail, zip_map, all_map]
    rfl
  have hbrackets : ∀ beginLsn lsn, bracketsOk (s.pending.map fun x => (x.1, x.2.untagged)) beginLsn lsn =
      bracketsOk s.pending beginLsn lsn := by
    intro beginLsn lsn
    simp only [bracketsOk, List.head?_map, List.getLast?_map, Option.map_map]
    rfl
  obtain ⟨lsn, timestamp, operation, framed⟩ := e
  cases framed with
  | false => cases operation <;> simp [resolveEntry, WalEntry.tagged, FrameScan.untagged,
      WalOperation.untagged]
  | true =>
    cases operation with
    | beginTx txId => rfl
    | control op => simp [resolveEntry, WalEntry.tagged, FrameScan.untagged, WalOperation.untagged]
    | data op =>
      simp only [resolveEntry, WalEntry.tagged, FrameScan.untagged, if_true]
      by_cases hopen : s.openTx.isSome = true
      · simp [hopen, WalOperation.untagged]
      · simp [hopen, WalOperation.untagged]
    | commitTx txId count commit =>
      simp only [resolveEntry, WalEntry.tagged, FrameScan.untagged, if_true]
      cases hopen : s.openTx with
      | none => simp [hopen]
      | some frame =>
        simp only [length_map, hcontiguous, hbrackets]
        split
        next hvalid => simp [hvalid]
        next hvalid => simp [hvalid]

lemma untagged_resolveTransactionFrames (es : List (WalEntry D C)) :
    (resolveTransactionFrames (es.map WalEntry.tagged)).map (fun x => (x.1.untagged, x.2)) =
      resolveTransactionFrames es := by
  have hscan : (scanFrames (es.map WalEntry.tagged)).untagged = scanFrames es := by
    induction es using List.reverseRecOn with
    | nil => rfl
    | append_singleton es e ih =>
      rw [map_append, map_singleton, scanFrames_snoc, scanFrames_snoc, untagged_resolveEntry, ih]
  exact congrArg FrameScan.resolved hscan

/-! ### When a frame is open -/

/-- Markers and control entries, where frames begin and end. -/
def WalEntry.isBoundary (e : WalEntry D C) : Bool :=
  e.framed && match e.operation with
    | .data _ => false
    | _ => true

def WalEntry.isBegin (e : WalEntry D C) : Bool :=
  match e.operation with
  | .beginTx _ => true
  | _ => false

/-- The last marker or control entry is a `BeginTx`. -/
def frameOpen (entries : List (WalEntry D C)) : Bool :=
  (entries.reverse.find? (·.isBoundary)).any (·.isBegin)

/-- What the writes that survive of a frame need: the frame's `BeginTx`, or another frame open before
them, unless all of them survive and were serialized at the very commit timestamp. -/
def BeginKept (f : FramedTx D) (survivors : List (WalEntry D C)) : Prop :=
  (∃ e ∈ f.opEntries C, e ∈ survivors) →
    f.beginEntry C ∈ survivors ∨ frameOpen (survivors.filter (·.lsn < f.firstLsn)) = true ∨
      ∀ e ∈ f.opEntries C, e ∈ survivors ∧ e.timestamp = f.transaction.commitTimestamp

/-! ### The scan -/

section Scan

variable {s : FrameScan D C} {e : WalEntry D C} {es : List (WalEntry D C)} {lsn : ℕ}

lemma frameOpen_snoc (es : List (WalEntry D C)) (e : WalEntry D C) :
    frameOpen (es ++ [e]) = if e.isBoundary then e.isBegin else frameOpen es := by
  simp only [frameOpen, reverse_append, reverse_cons, reverse_nil, nil_append,
    singleton_append, List.find?_cons]
  cases e.isBoundary <;> rfl

/-- The scan has a frame open exactly when the last boundary is a `BeginTx`. -/
lemma isSome_openTx (es : List (WalEntry D C)) : (scanFrames es).openTx.isSome = frameOpen es := by
  induction es using List.reverseRecOn with
  | nil => rfl
  | append_singleton es e ih =>
    rw [scanFrames_snoc, frameOpen_snoc, ← ih]
    obtain ⟨lsn, timestamp, operation, framed⟩ := e
    cases framed with
    | false => rfl
    | true =>
      cases operation with
      | beginTx txId => rfl
      | control op => rfl
      | data op =>
        simp only [resolveEntry, WalEntry.isBoundary, if_true]
        split <;> rfl
      | commitTx txId count commit =>
        simp only [resolveEntry, WalEntry.isBoundary, WalEntry.isBegin, if_true]
        split
        next hnone => simp [hnone]
        next => split <;> rfl

/-- The open frame lacks an LSN below the bound, so that no marker beyond it validates the frame. -/
def Dead (s : FrameScan D C) (lsn : ℕ) : Prop :=
  ∀ txId beginLsn, s.openTx = some (txId, beginLsn) →
    ∃ l, beginLsn < l ∧ l < lsn ∧ l ∉ s.pending.map Prod.fst

lemma Dead.mono {lsn' : ℕ} (h : Dead s lsn) (hle : lsn ≤ lsn') : Dead s lsn' := by
  intro txId beginLsn hopen
  obtain ⟨l, hbegin, hl, hmem⟩ := h txId beginLsn hopen
  exact ⟨l, hbegin, by omega, hmem⟩

lemma dead_of_none (h : s.openTx = none) : Dead s lsn := by
  intro txId beginLsn hopen
  simp [h] at hopen

lemma lsnsContiguous_cons (x y : ℕ × WalOperation D C) (rest : List (ℕ × WalOperation D C)) :
    lsnsContiguous (x :: y :: rest) = true ↔ y.1 = x.1 + 1 ∧ lsnsContiguous (y :: rest) = true := by
  simp [lsnsContiguous]

lemma mem_of_contiguous : ∀ (x : ℕ × WalOperation D C) (rest : List (ℕ × WalOperation D C)) (l : ℕ),
    lsnsContiguous (x :: rest) = true → x.1 ≤ l → l ≤ ((x :: rest).getLast (by simp)).1 →
      l ∈ (x :: rest).map Prod.fst := by
  intro x rest
  induction rest generalizing x with
  | nil =>
    intro l _ hlow hhigh
    have hl : l = x.1 := le_antisymm hhigh hlow
    simp [hl]
  | cons y rest ih =>
    intro l hcontiguous hlow hhigh
    obtain ⟨hy, hrest⟩ := (lsnsContiguous_cons x y rest).mp hcontiguous
    rcases Nat.lt_or_ge x.1 l with hlt | hge
    · rw [getLast_cons (by simp)] at hhigh
      exact mem_cons_of_mem _ (ih y l hrest (by omega) hhigh)
    · have hl : l = x.1 := le_antisymm hge hlow
      simp [hl]

lemma mem_of_valid {pending : List (ℕ × WalOperation D C)} {beginLsn l : ℕ}
    (hcontiguous : lsnsContiguous pending = true) (hbrackets : bracketsOk pending beginLsn lsn = true)
    (hlow : beginLsn < l) (hhigh : l < lsn) : l ∈ pending.map Prod.fst := by
  simp only [bracketsOk, Bool.and_eq_true, beq_iff_eq] at hbrackets
  cases pending with
  | nil => simp at hbrackets
  | cons x rest =>
    rw [List.getLast?_eq_getLast_of_ne_nil (by simp)] at hbrackets
    simp only [List.head?_cons, Option.map_some, Option.some.injEq] at hbrackets
    exact mem_of_contiguous x rest l hcontiguous (by omega) (by omega)

def Writes (es : List (WalEntry D C)) : Prop :=
  ∀ e ∈ es, e.framed = true ∧ ∃ op, e.operation = .data op

lemma foldl_writes_open (hes : Writes es) (hopen : s.openTx.isSome = true) :
    es.foldl resolveEntry s =
      { s with pending := s.pending ++ es.map fun e => (e.lsn, e.operation) } := by
  induction es generalizing s with
  | nil => simp
  | cons e es ih =>
    obtain ⟨hframed, op, hop⟩ := hes e (by simp)
    have hstep : resolveEntry s e = { s with pending := s.pending ++ [(e.lsn, e.operation)] } := by
      simp [resolveEntry, hframed, hop, hopen]
    have hrest : Writes es := fun x hx => hes x (mem_cons_of_mem _ hx)
    rw [foldl_cons, hstep]
    exact (ih (s := { s with pending := s.pending ++ [(e.lsn, e.operation)] }) hrest hopen).trans
      (by simp)

lemma foldl_writes_closed (hes : Writes es) (hopen : s.openTx = none) :
    es.foldl resolveEntry s =
      { s with resolved := s.resolved ++ es.map fun e => (e.operation, e.timestamp) } := by
  induction es generalizing s with
  | nil => simp
  | cons e es ih =>
    obtain ⟨hframed, op, hop⟩ := hes e (by simp)
    have hstep : resolveEntry s e = { s with resolved := s.resolved ++ [(e.operation, e.timestamp)] } := by
      simp [resolveEntry, hframed, hop, hopen]
    have hrest : Writes es := fun x hx => hes x (mem_cons_of_mem _ hx)
    rw [foldl_cons, hstep]
    exact (ih (s := { s with resolved := s.resolved ++ [(e.operation, e.timestamp)] }) hrest
      hopen).trans (by simp)

lemma resolveEntry_commit_dead {txId : TxId} {count : ℕ} {commit timestamp : Timestamp}
    (hdead : Dead s lsn) (hopen : s.openTx.isSome = true) :
    resolveEntry s ⟨lsn, timestamp, .commitTx txId count commit, true⟩ =
      { s with pending := [], openTx := none } := by
  obtain ⟨⟨openId, beginLsn⟩, hsome⟩ := Option.isSome_iff_exists.mp hopen
  obtain ⟨l, hlow, hhigh, hmem⟩ := hdead openId beginLsn hsome
  simp only [resolveEntry, hsome, if_true]
  rw [if_neg]
  rintro ⟨-, -, hcontiguous, hbrackets⟩
  exact hmem (mem_of_valid hcontiguous hbrackets hlow hhigh)

end Scan

/-! ### One item of the stream -/

namespace FramedTx

variable (f : FramedTx D) {e : WalEntry D C}

lemma mem_opEntries : e ∈ f.opEntries C ↔ ∃ i w, f.transaction.writes[i]? = some w ∧
    e = ⟨f.firstLsn + 1 + i, f.stamps (1 + i), .data w, true⟩ := by
  simp only [opEntries, mem_map, Prod.exists, mem_zipIdx_iff_getElem?]
  constructor
  · rintro ⟨w, i, hw, rfl⟩
    exact ⟨i, w, hw, rfl⟩
  · rintro ⟨i, w, hw, rfl⟩
    exact ⟨w, i, hw, rfl⟩

lemma lsn_of_mem_opEntries (he : e ∈ f.opEntries C) : f.firstLsn < e.lsn ∧ e.lsn < f.commitLsn := by
  obtain ⟨i, w, hw, rfl⟩ := f.mem_opEntries.mp he
  obtain ⟨hi, -⟩ := List.getElem?_eq_some_iff.mp hw
  simp only [commitLsn]
  omega

lemma writes_opEntries (kept : ℕ → Bool) : Writes ((f.opEntries C).filter (kept ·.lsn)) := by
  intro e he
  obtain ⟨i, w, -, rfl⟩ := f.mem_opEntries.mp (mem_of_mem_filter he)
  exact ⟨rfl, w, rfl⟩

lemma map_opEntries_band :
    (f.opEntries C).map (fun e => (e.lsn, e.operation)) = band f.firstLsn f.transaction.writes := by
  simp [opEntries, band]

lemma map_opEntries_operation :
    (f.opEntries C).map (·.operation) = f.transaction.writes.map .data := by
  simp only [opEntries, map_map]
  conv_rhs => rw [← zipIdx_map_fst 0 f.transaction.writes, map_map]
  rfl

variable (C) in
/-- What the scan of the entries that are kept of the frame resolves. -/
def contribution (kept : ℕ → Bool) (isOpen : Bool) : List (WalOperation D C × Timestamp) :=
  if kept f.firstLsn then
    if (f.entries C).all (kept ·.lsn) then f.transaction.replayed C else []
  else if isOpen then []
  else ((f.opEntries C).filter (kept ·.lsn)).map fun e => (e.operation, e.timestamp)

lemma filter_entries (kept : ℕ → Bool) : (f.entries C).filter (kept ·.lsn) =
    (if kept f.firstLsn then [f.beginEntry C] else []) ++ (f.opEntries C).filter (kept ·.lsn) ++
      if kept f.commitLsn then [f.commitEntry C] else [] := by
  simp only [entries, cons_append, filter_cons, filter_append, filter_nil, beginEntry, commitEntry]
  split <;> split <;> rfl

lemma all_entries (kept : ℕ → Bool) : (f.entries C).all (kept ·.lsn) =
    (kept f.firstLsn && (f.opEntries C).all (kept ·.lsn) && kept f.commitLsn) := by
  simp [entries, beginEntry, commitEntry, Bool.and_assoc]

/-- The frame's own marker validates it exactly when none of its operations is lost. -/
lemma resolveEntry_commitEntry {kept : ℕ → Bool} {resolved : List (WalOperation D C × Timestamp)} :
    resolveEntry ⟨resolved, ((f.opEntries C).filter (kept ·.lsn)).map fun e => (e.lsn, e.operation),
        some (f.transaction.txId, f.firstLsn)⟩ (f.commitEntry C) =
      ⟨resolved ++ if (f.opEntries C).all (kept ·.lsn) then f.transaction.replayed C else [],
        [], none⟩ := by
  have hcount : f.transaction.writes.length % 2 ^ 32 = f.transaction.writes.length := by
    have := f.transaction.writes_le
    unfold defaultMaxOperations at this
    omega
  split
  next hall =>
    have hfilter : (f.opEntries C).filter (kept ·.lsn) = f.opEntries C :=
      filter_eq_self.mpr (all_eq_true.mp hall)
    have hbrackets := bracketsOk_band (C := C) f.firstLsn f.transaction.writes_ne
    simp only [resolveEntry, commitEntry, hfilter, map_opEntries_band, if_true]
    rw [if_pos ⟨trivial, by rw [length_band, hcount], lsnsContiguous_band _ _, hbrackets⟩]
    congr 1
    exact congrArg _ (map_band (fun op => (op, f.transaction.commitTimestamp)) _ _)
  next hall =>
    obtain ⟨e, he, hlost⟩ : ∃ e ∈ f.opEntries C, kept e.lsn = false := by
      simpa using hall
    -- the LSN of the lost operation is missing
    have hdead : Dead (⟨resolved, ((f.opEntries C).filter (kept ·.lsn)).map
        fun e => (e.lsn, e.operation), some (f.transaction.txId, f.firstLsn)⟩ : FrameScan D C)
        f.commitLsn := by
      intro txId beginLsn hopen
      cases hopen
      refine ⟨e.lsn, (f.lsn_of_mem_opEntries he).1, (f.lsn_of_mem_opEntries he).2, ?_⟩
      simp only [map_map, mem_map, mem_filter, comp_apply, not_exists, not_and, and_imp]
      intro x _ hkept hlsn
      rw [hlsn, hlost] at hkept
      cases hkept
    rw [commitEntry, resolveEntry_commit_dead hdead rfl]
    simp

variable {s : FrameScan D C} {kept : ℕ → Bool}

lemma scan_begun (hkept : kept f.firstLsn = true) :
    (((f.entries C).filter (kept ·.lsn)).foldl resolveEntry s).resolved =
        s.resolved ++ f.contribution C kept s.openTx.isSome ∧
      Dead (((f.entries C).filter (kept ·.lsn)).foldl resolveEntry s) (f.commitLsn + 1) := by
  have hbegin : resolveEntry s (f.beginEntry C) =
      ⟨s.resolved, [], some (f.transaction.txId, f.firstLsn)⟩ := rfl
  have hwrites := foldl_writes_open (s := ⟨s.resolved, [], some (f.transaction.txId, f.firstLsn)⟩)
    (f.writes_opEntries (C := C) kept) rfl
  simp only [filter_entries, hkept, if_true, cons_append, foldl_cons, foldl_append, hbegin, hwrites,
    contribution, all_entries, Bool.true_and, nil_append]
  cases hcommit : kept f.commitLsn with
  | true =>
    simp only [if_true, foldl_cons, foldl_nil, resolveEntry_commitEntry, Bool.and_true]
    exact ⟨trivial, dead_of_none rfl⟩
  | false =>
    simp only [Bool.false_eq_true, if_false, foldl_nil, Bool.and_false, append_nil]
    refine ⟨trivial, ?_⟩
    intro txId beginLsn hopen
    cases hopen
    refine ⟨f.commitLsn, by simp only [commitLsn]; omega, by omega, ?_⟩
    simp only [map_map, mem_map, mem_filter, comp_apply, not_exists, not_and, and_imp]
    intro e he _ hlsn
    exact absurd (f.lsn_of_mem_opEntries he).2 (by omega)

lemma scan_inside (hdead : Dead s f.firstLsn) (hkept : kept f.firstLsn = false)
    (hopen : s.openTx.isSome = true) :
    (((f.entries C).filter (kept ·.lsn)).foldl resolveEntry s).resolved =
        s.resolved ++ f.contribution C kept s.openTx.isSome ∧
      Dead (((f.entries C).filter (kept ·.lsn)).foldl resolveEntry s) (f.commitLsn + 1) := by
  have hdead' : Dead (⟨s.resolved, s.pending ++ ((f.opEntries C).filter (kept ·.lsn)).map
      (fun e => (e.lsn, e.operation)), s.openTx⟩ : FrameScan D C) f.commitLsn := by
    intro txId beginLsn hsome
    obtain ⟨l, hlow, hhigh, hmem⟩ := hdead txId beginLsn hsome
    refine ⟨l, hlow, by simp only [commitLsn]; omega, ?_⟩
    rw [map_append, mem_append, not_or]
    refine ⟨hmem, ?_⟩
    simp only [map_map, mem_map, mem_filter, comp_apply, not_exists, not_and, and_imp]
    intro e he _ hlsn
    exact absurd (f.lsn_of_mem_opEntries he).1 (by omega)
  simp only [filter_entries, hkept, hopen, Bool.false_eq_true, if_false, nil_append, foldl_append,
    foldl_writes_open (f.writes_opEntries (C := C) kept) hopen, contribution, if_true, append_nil]
  cases hcommit : kept f.commitLsn with
  | true =>
    simp only [if_true, foldl_cons, foldl_nil, commitEntry, resolveEntry_commit_dead hdead' hopen]
    exact ⟨trivial, dead_of_none rfl⟩
  | false => exact ⟨rfl, hdead'.mono (Nat.le_succ _)⟩

lemma scan_outside (hkept : kept f.firstLsn = false) (hopen : s.openTx = none) :
    (((f.entries C).filter (kept ·.lsn)).foldl resolveEntry s).resolved =
        s.resolved ++ f.contribution C kept s.openTx.isSome ∧
      Dead (((f.entries C).filter (kept ·.lsn)).foldl resolveEntry s) (f.commitLsn + 1) := by
  simp only [filter_entries, hkept, hopen, Bool.false_eq_true, if_false, nil_append, foldl_append,
    foldl_writes_closed (f.writes_opEntries (C := C) kept) hopen, contribution, Option.isSome_none]
  cases kept f.commitLsn with
  | true => exact ⟨rfl, dead_of_none rfl⟩
  | false => exact ⟨rfl, dead_of_none rfl⟩

lemma scan (kept : ℕ → Bool) (hdead : Dead s f.firstLsn) :
    (((f.entries C).filter (kept ·.lsn)).foldl resolveEntry s).resolved =
        s.resolved ++ f.contribution C kept s.openTx.isSome ∧
      Dead (((f.entries C).filter (kept ·.lsn)).foldl resolveEntry s) (f.commitLsn + 1) := by
  cases hkept : kept f.firstLsn with
  | true => exact f.scan_begun hkept
  | false =>
    cases hopen : s.openTx with
    | none => simpa [hopen] using f.scan_outside hkept hopen
    | some frame => simpa [hopen] using f.scan_inside hdead hkept (by simp [hopen])

end FramedTx

/-! ### Operations under their LSNs -/

namespace FramedTx

variable (f : FramedTx D)

def tagged : FramedTx (ℕ × D) where
  transaction :=
    { txId := f.transaction.txId
      writes := f.transaction.writes.zipIdx.map fun w => (f.firstLsn + 1 + w.2, w.1)
      commitTimestamp := f.transaction.commitTimestamp
      writes_ne := by simpa using f.transaction.writes_ne
      writes_le := by simpa using f.transaction.writes_le }
  firstLsn := f.firstLsn
  stamps := f.stamps

@[simp] lemma tagged_firstLsn : f.tagged.firstLsn = f.firstLsn := rfl

@[simp] lemma tagged_commitLsn : f.tagged.commitLsn = f.commitLsn := by
  simp [commitLsn, tagged]

lemma opEntries_tagged : f.tagged.opEntries C = (f.opEntries C).map WalEntry.tagged := by
  apply ext_getElem?
  intro i
  simp only [opEntries, tagged, List.getElem?_map, List.getElem?_zipIdx, Nat.zero_add]
  cases f.transaction.writes[i]? <;> rfl

lemma entries_tagged : f.tagged.entries C = (f.entries C).map WalEntry.tagged := by
  simp only [entries, opEntries_tagged, map_append, map_cons, map_nil]
  simp [beginEntry, commitEntry, WalEntry.tagged, tagged, commitLsn]

@[simp] lemma tagged_lsn (e : WalEntry D C) : e.tagged.lsn = e.lsn := rfl

@[simp] lemma tagged_timestamp (e : WalEntry D C) : e.tagged.timestamp = e.timestamp := rfl

variable (C) in
lemma own_replayed :
    (f.tagged.transaction.replayed C).filterMap f.own = f.transaction.replayed C := by
  have hown : ∀ w ∈ f.transaction.writes.zipIdx,
      f.own (C := C) (.data (f.firstLsn + 1 + w.2, w.1), f.transaction.commitTimestamp) =
        some (.data w.1, f.transaction.commitTimestamp) := by
    intro w hw
    obtain ⟨-, hlt, -⟩ := mem_zipIdx hw
    simp only [own]
    rw [if_pos ⟨by omega, by simp only [commitLsn]; omega⟩]
  simp only [LoggedTransaction.replayed, tagged, map_map, filterMap_map]
  rw [filterMap_congr (g := fun w => some (.data w.1, f.transaction.commitTimestamp)) hown,
    filterMap_eq_map' ]
  conv_rhs => rw [← zipIdx_map_fst 0 f.transaction.writes, map_map]
  rfl

lemma own_entry {e : WalEntry D C} (he : e ∈ f.opEntries C) :
    f.own (e.tagged.operation, e.timestamp) = some (e.operation, e.timestamp) := by
  obtain ⟨hlow, hhigh⟩ := f.lsn_of_mem_opEntries he
  obtain ⟨i, w, -, rfl⟩ := f.mem_opEntries.mp he
  simp only [WalEntry.tagged, own]
  rw [if_pos ⟨hlow.le, hhigh.le⟩]

lemma own_contribution (kept : ℕ → Bool) (isOpen : Bool) :
    (f.tagged.contribution C kept isOpen).filterMap f.own = f.contribution C kept isOpen := by
  simp only [contribution, tagged_firstLsn, entries_tagged, opEntries_tagged, all_map, filter_map]
  split
  · split
    next h => rw [if_pos (by exact h), own_replayed]
    next h => rw [if_neg (by exact h), filterMap_nil]
  · split
    · rfl
    · rw [map_map, filterMap_map]
      have hown : ∀ e ∈ (f.opEntries C).filter (kept ·.lsn),
          f.own (e.tagged.operation, e.timestamp) = some (e.operation, e.timestamp) :=
        fun e he => f.own_entry (mem_of_mem_filter he)
      exact (filterMap_congr hown).trans (by rw [filterMap_eq_map'])

end FramedTx

/-! ### The whole stream -/

namespace LogItem

variable {s : FrameScan (ℕ × D) C}

lemma lsn_of_mem_entries {item : LogItem D C} {e : WalEntry D C} (he : e ∈ item.entries) :
    item.firstLsn ≤ e.lsn ∧ e.lsn < item.endLsn := by
  cases item with
  | control c =>
    obtain rfl := mem_singleton.mp he
    exact ⟨le_rfl, Nat.lt_succ_self _⟩
  | frame f =>
    simp only [entries, FramedTx.entries, cons_append, mem_cons, mem_append,
      not_mem_nil, or_false] at he
    simp only [firstLsn, endLsn]
    rcases he with rfl | he | rfl
    · simp only [FramedTx.beginEntry, FramedTx.commitLsn]
      omega
    · have := f.lsn_of_mem_opEntries he
      omega
    · simp only [FramedTx.commitEntry, FramedTx.commitLsn]
      omega

/-- If the operation is a write, it was logged within the item. -/
def Within (item : LogItem D C) (x : WalOperation (ℕ × D) C × Timestamp) : Prop :=
  ∀ lsn w, x.1 = .data (lsn, w) → item.firstLsn ≤ lsn ∧ lsn < item.endLsn

lemma within_contribution (f : FramedTx D) (kept : ℕ → Bool) (isOpen : Bool) :
    ∀ x ∈ f.tagged.contribution C kept isOpen, (frame f : LogItem D C).Within x := by
  intro x hx lsn w hdata
  simp only [FramedTx.contribution] at hx
  split at hx
  · split at hx
    · simp only [LoggedTransaction.replayed, FramedTx.tagged, map_map, mem_map, comp_apply] at hx
      obtain ⟨v, hv, rfl⟩ := hx
      obtain ⟨-, hlt, -⟩ := mem_zipIdx hv
      cases hdata
      simp only [firstLsn, endLsn, FramedTx.commitLsn]
      omega
    · simp at hx
  · split at hx
    · simp at hx
    · rw [FramedTx.opEntries_tagged, mem_map] at hx
      obtain ⟨_, hmem, rfl⟩ := hx
      obtain ⟨e, he, rfl⟩ := mem_map.mp (mem_of_mem_filter hmem)
      have hlsn := f.lsn_of_mem_opEntries he
      obtain ⟨i, v, -, rfl⟩ := f.mem_opEntries.mp he
      cases hdata
      simp only [firstLsn, endLsn] at hlsn ⊢
      omega

lemma scan (item : LogItem D C) (kept : ℕ → Bool) (hdead : Dead s item.firstLsn) :
    ∃ c, (((item.entries.map WalEntry.tagged).filter (kept ·.lsn)).foldl resolveEntry s).resolved =
        s.resolved ++ c ∧ (∀ x ∈ c, item.Within x) ∧
      Dead (((item.entries.map WalEntry.tagged).filter (kept ·.lsn)).foldl resolveEntry s)
        item.endLsn := by
  cases item with
  | frame f =>
    have hscan := f.tagged.scan (C := C) kept hdead
    rw [FramedTx.entries_tagged, FramedTx.tagged_commitLsn] at hscan
    exact ⟨_, hscan.1, within_contribution f kept _, hscan.2⟩
  | control c =>
    by_cases hkept : kept c.lsn = true
    · have hlist : ((control c : LogItem D C).entries.map WalEntry.tagged).filter (kept ·.lsn) =
          [⟨c.lsn, c.timestamp, .control c.op, c.framed⟩] := by
        simp [entries, WalEntry.tagged, hkept]
      have hwithin : ∀ x ∈ [((.control c.op : WalOperation (ℕ × D) C), c.timestamp)],
          (control c : LogItem D C).Within x := by
        intro x hx lsn w hdata
        rw [mem_singleton.mp hx] at hdata
        cases hdata
      rw [hlist]
      refine ⟨[(.control c.op, c.timestamp)], ?_⟩
      obtain ⟨lsn, timestamp, op, framed⟩ := c
      cases framed with
      | true => exact ⟨rfl, hwithin, dead_of_none rfl⟩
      | false =>
        refine ⟨rfl, hwithin, ?_⟩
        have hsame : Dead (⟨s.resolved ++ [(.control op, timestamp)], s.pending, s.openTx⟩ :
            FrameScan (ℕ × D) C) lsn := hdead
        exact hsame.mono (Nat.le_succ _)
    · have hlist : ((control c : LogItem D C).entries.map WalEntry.tagged).filter (kept ·.lsn) =
          [] := by
        simp [entries, WalEntry.tagged, hkept]
      rw [hlist]
      exact ⟨[], by simp, by simp, hdead.mono (Nat.le_succ _)⟩

lemma scan_all (kept : ℕ → Bool) (items : List (LogItem D C)) {lsn : ℕ} (hdead : Dead s lsn)
    (hordered : items.Pairwise fun a b => a.endLsn ≤ b.firstLsn)
    (hfirst : ∀ item ∈ items, lsn ≤ item.firstLsn) :
    ∃ c, ((((items.flatMap entries).map WalEntry.tagged).filter (kept ·.lsn)).foldl
        resolveEntry s).resolved = s.resolved ++ c ∧ (∀ x ∈ c, ∃ item ∈ items, item.Within x) ∧
      ∀ lsn', lsn ≤ lsn' → (∀ item ∈ items, item.endLsn ≤ lsn') →
        Dead ((((items.flatMap entries).map WalEntry.tagged).filter (kept ·.lsn)).foldl
          resolveEntry s) lsn' := by
  induction items generalizing s lsn with
  | nil => exact ⟨[], by simp, by simp, fun lsn' hle _ => hdead.mono hle⟩
  | cons item items ih =>
    obtain ⟨hitem, hordered⟩ := pairwise_cons.mp hordered
    obtain ⟨c, hc, hwithin, hdead'⟩ := item.scan kept (hdead.mono (hfirst item (by simp)))
    obtain ⟨cs, hcs, hwithins, hdeads⟩ := ih hdead' hordered hitem
    simp only [flatMap_cons, map_append, filter_append, foldl_append]
    refine ⟨c ++ cs, by rw [hcs, hc, append_assoc], ?_, fun lsn' hle hends => ?_⟩
    · intro x hx
      rcases mem_append.mp hx with hx | hx
      · exact ⟨item, by simp, hwithin x hx⟩
      · obtain ⟨other, hmem, hx⟩ := hwithins x hx
        exact ⟨other, mem_cons_of_mem _ hmem, hx⟩
    · exact hdeads lsn' (hends item (by simp)) fun other hmem =>
        hends other (mem_cons_of_mem _ hmem)

end LogItem

variable {stream : LogStream D C} {survivors : List (WalEntry D C)} {f : FramedTx D}
  {e : WalEntry D C}

lemma frameOpen_tagged (es : List (WalEntry D C)) :
    frameOpen (es.map WalEntry.tagged) = frameOpen es := by
  induction es using List.reverseRecOn with
  | nil => rfl
  | append_singleton es e ih =>
    rw [map_append, map_singleton, frameOpen_snoc, frameOpen_snoc, ih]
    obtain ⟨lsn, timestamp, operation, framed⟩ := e
    cases operation <;> rfl

lemma FramedTx.own_eq_none {item : LogItem D C} {x : WalOperation (ℕ × D) C × Timestamp}
    (hx : item.Within x)
    (happart : item.endLsn ≤ f.firstLsn ∨ f.commitLsn + 1 ≤ item.firstLsn) : f.own x = none := by
  obtain ⟨operation, timestamp⟩ := x
  cases operation with
  | data op =>
    obtain ⟨lsn, w⟩ := op
    have hlsn := hx lsn w rfl
    simp only [FramedTx.own]
    rw [if_neg (by omega)]
  | beginTx txId => rfl
  | commitTx txId count commit => rfl
  | control op => rfl

/-- What recovery gives back of a frame is decided by its own entries and by whether a frame is open
before them. -/
lemma resolved_filter (hf : .frame f ∈ stream.items) (kept : ℕ → Bool) :
    f.resolved (stream.entries.filter (kept ·.lsn)) = f.contribution C kept
      (frameOpen ((stream.entries.filter (kept ·.lsn)).filter (·.lsn < f.firstLsn))) := by
  obtain ⟨before, after, hitems⟩ := append_of_mem hf
  have hordered := stream.ordered
  rw [hitems, pairwise_append, pairwise_cons] at hordered
  obtain ⟨hbefore, ⟨hfirst, hafter⟩, hends⟩ := hordered
  have hend : ∀ item ∈ before, item.endLsn ≤ f.firstLsn := fun item hitem =>
    hends item hitem (.frame f) (by simp)
  -- the entries before the frame are the ones below its first LSN
  have hbelow : (stream.entries.filter (kept ·.lsn)).filter (·.lsn < f.firstLsn) =
      (before.flatMap LogItem.entries).filter (kept ·.lsn) := by
    have hin : ∀ e ∈ before.flatMap LogItem.entries, e.lsn < f.firstLsn := by
      intro e he
      obtain ⟨item, hitem, he⟩ := mem_flatMap.mp he
      exact (LogItem.lsn_of_mem_entries he).2.trans_le (hend item hitem)
    have hout : ∀ e ∈ f.entries C ++ after.flatMap LogItem.entries, ¬e.lsn < f.firstLsn := by
      intro e he
      rcases mem_append.mp he with he | he
      · have hmem : e ∈ (LogItem.frame f).entries := he
        exact not_lt.mpr (LogItem.lsn_of_mem_entries hmem).1
      · obtain ⟨item, hitem, he⟩ := mem_flatMap.mp he
        have hlsn := (LogItem.lsn_of_mem_entries he).1
        have hle : f.commitLsn + 1 ≤ item.firstLsn := hfirst item hitem
        simp only [FramedTx.commitLsn] at hle
        omega
    rw [LogStream.entries, hitems, flatMap_append, flatMap_cons, filter_filter, filter_append]
    have hnil : (f.entries C ++ after.flatMap LogItem.entries).filter
        (fun e => decide (e.lsn < f.firstLsn) && kept e.lsn) = [] := by
      rw [filter_eq_nil_iff]
      intro e he
      simp [hout e he]
    refine (congrArg₂ (· ++ ·) (filter_congr fun e he => ?_) hnil).trans (append_nil _)
    simp [hin e he]
  obtain ⟨c, hc, hwithin, hdead⟩ := LogItem.scan_all (s := ⟨[], [], none⟩) kept before
    (dead_of_none rfl : Dead _ 0) hbefore (fun _ _ => Nat.zero_le _)
  have hframe := f.tagged.scan (C := C) kept (hdead f.firstLsn (Nat.zero_le _) hend)
  rw [FramedTx.tagged_commitLsn, FramedTx.entries_tagged] at hframe
  obtain ⟨c', hc', hwithin', -⟩ := LogItem.scan_all kept after hframe.2 hafter hfirst
  have hfilter : ∀ l : List (WalEntry D C), (l.filter (kept ·.lsn)).map WalEntry.tagged =
      (l.map WalEntry.tagged).filter (kept ·.lsn) := fun l => by
    rw [filter_map]
    rfl
  rw [hbelow, ← frameOpen_tagged, ← isSome_openTx, hfilter]
  rw [FramedTx.resolved, resolveTransactionFrames, scanFrames, hfilter, LogStream.entries, hitems,
    flatMap_append, flatMap_cons, map_append, map_append, filter_append,
    filter_append, foldl_append, foldl_append]
  have hleft : c.filterMap f.own = [] := filterMap_eq_nil_iff.mpr fun x hx => by
    obtain ⟨item, hitem, hx⟩ := hwithin x hx
    exact FramedTx.own_eq_none hx (.inl (hend item hitem))
  have hright : c'.filterMap f.own = [] := filterMap_eq_nil_iff.mpr fun x hx => by
    obtain ⟨item, hitem, hx⟩ := hwithin' x hx
    exact FramedTx.own_eq_none hx (.inr (hfirst item hitem))
  rw [LogItem.entries, hc', hframe.1, hc, filterMap_append, filterMap_append, nil_append, hleft,
    hright, append_nil, nil_append, FramedTx.own_contribution, scanFrames]

/-! ### Survivors -/

lemma LogItem.entries_sorted (item : LogItem D C) :
    item.entries.Pairwise fun a b => a.lsn < b.lsn := by
  cases item with
  | control c => exact pairwise_singleton _ _
  | frame f =>
    have hops : (f.opEntries C).Pairwise fun a b => a.lsn < b.lsn := by
      rw [pairwise_iff_getElem]
      intro i j hi hj hij
      simp only [FramedTx.opEntries, getElem_map, getElem_zipIdx]
      omega
    simp only [LogItem.entries, FramedTx.entries, cons_append, pairwise_cons,
      pairwise_append, mem_append, mem_singleton]
    refine ⟨?_, hops, by simp, ?_⟩
    · rintro e (he | rfl)
      · exact (f.lsn_of_mem_opEntries he).1
      · simp only [FramedTx.beginEntry, FramedTx.commitEntry, FramedTx.commitLsn]
        omega
    · rintro e he _ rfl
      exact (f.lsn_of_mem_opEntries he).2

lemma LogStream.entries_sorted (stream : LogStream D C) :
    stream.entries.Pairwise fun a b => a.lsn < b.lsn := by
  rw [LogStream.entries, pairwise_flatMap]
  refine ⟨fun item _ => item.entries_sorted, stream.ordered.imp fun {a b} hab x hx y hy => ?_⟩
  exact (LogItem.lsn_of_mem_entries hx).2.trans_le (hab.trans (LogItem.lsn_of_mem_entries hy).1)

def keptLsn (survivors : List (WalEntry D C)) (lsn : ℕ) : Bool := decide (lsn ∈ survivors.map (·.lsn))

lemma keptLsn_iff (h : survivors.Sublist stream.entries) (he : e ∈ stream.entries) :
    keptLsn survivors e.lsn = true ↔ e ∈ survivors := by
  simp only [keptLsn, decide_eq_true_eq, mem_map]
  constructor
  · rintro ⟨x, hx, hlsn⟩
    have hnodup : (stream.entries.map (·.lsn)).Nodup :=
      pairwise_map.mpr (stream.entries_sorted.imp fun hlt => hlt.ne)
    rwa [← inj_on_of_nodup_map hnodup (h.subset hx) he hlsn]
  · intro hmem
    exact ⟨e, hmem, rfl⟩

lemma eq_filter_kept {l : List (WalEntry D C)} (hsorted : l.Pairwise fun a b => a.lsn < b.lsn)
    (h : survivors.Sublist l) : survivors = l.filter (keptLsn survivors ·.lsn) := by
  induction h with
  | slnil => rfl
  | cons e hsub ih =>
    obtain ⟨hlt, hsorted⟩ := pairwise_cons.mp hsorted
    rw [filter_cons_of_neg]
    · exact ih hsorted
    · simp only [keptLsn, decide_eq_true_eq, mem_map, not_exists, not_and]
      intro x hx hlsn
      exact absurd (hlt x (hsub.subset hx)) (by omega)
  | cons_cons e hsub ih =>
    obtain ⟨hlt, hsorted⟩ := pairwise_cons.mp hsorted
    rw [filter_cons_of_pos (by simp [keptLsn])]
    refine congrArg (List.cons e) ((ih hsorted).trans (filter_congr fun x hx => ?_))
    have hne : x.lsn ≠ e.lsn := (hlt x hx).ne'
    simp [keptLsn, hne]

lemma LogStream.mem_entries (hf : .frame f ∈ stream.items) (he : e ∈ f.entries C) :
    e ∈ stream.entries :=
  mem_flatMap.mpr ⟨.frame f, hf, he⟩

lemma FramedTx.resolved_eq (h : survivors.Sublist stream.entries) (hf : .frame f ∈ stream.items) :
    f.resolved survivors = f.contribution C (keptLsn survivors)
      (frameOpen (survivors.filter (·.lsn < f.firstLsn))) := by
  have hresolved := resolved_filter hf (keptLsn survivors)
  rwa [← eq_filter_kept stream.entries_sorted h] at hresolved

lemma immediate_iff (kept : ℕ → Bool) :
    (((f.opEntries C).filter (kept ·.lsn)).map (fun e => (e.operation, e.timestamp)) =
        f.transaction.replayed C ∨
      ((f.opEntries C).filter (kept ·.lsn)).map (fun e => (e.operation, e.timestamp)) = []) ↔
    ((∃ e ∈ f.opEntries C, kept e.lsn = true) →
      ∀ e ∈ f.opEntries C, kept e.lsn = true ∧ e.timestamp = f.transaction.commitTimestamp) := by
  have hreplayed : f.transaction.replayed C =
      (f.opEntries C).map fun e => (e.operation, f.transaction.commitTimestamp) := by
    have hops := congrArg (List.map fun op => (op, f.transaction.commitTimestamp))
      (f.map_opEntries_operation (C := C))
    rw [map_map, map_map] at hops
    exact hops.symm
  constructor
  · rintro (hall | hnone) ⟨e, he, hkept⟩
    · rw [hreplayed] at hall
      have hlength := congrArg List.length hall
      rw [length_map, length_map] at hlength
      have hkeeps := length_filter_eq_length_iff.mp hlength
      rw [filter_eq_self.mpr hkeeps] at hall
      intro x hx
      have hstamp := map_inj_left.mp hall x hx
      exact ⟨hkeeps x hx, (Prod.mk.inj hstamp).2⟩
    · rw [map_eq_nil_iff, filter_eq_nil_iff] at hnone
      exact absurd hkept (hnone e he)
  · intro h
    by_cases hsome : ∃ e ∈ f.opEntries C, kept e.lsn = true
    · left
      rw [filter_eq_self.mpr fun e he => (h hsome e he).1, hreplayed]
      exact map_congr_left fun e he => by rw [(h hsome e he).2]
    · right
      rw [map_eq_nil_iff, filter_eq_nil_iff]
      exact fun e he hkept => hsome ⟨e, he, hkept⟩

lemma contribution_iff (h : survivors.Sublist stream.entries) (hf : .frame f ∈ stream.items) :
    (f.resolved survivors = f.transaction.replayed C ∨ f.resolved survivors = []) ↔
      BeginKept f survivors := by
  have hkept : ∀ e ∈ f.entries C, (keptLsn survivors e.lsn = true ↔ e ∈ survivors) :=
    fun e he => keptLsn_iff h (LogStream.mem_entries hf he)
  have hbegin : keptLsn survivors f.firstLsn = true ↔ f.beginEntry C ∈ survivors :=
    hkept (f.beginEntry C) (by simp [FramedTx.entries])
  have hops : ∀ e ∈ f.opEntries C, (keptLsn survivors e.lsn = true ↔ e ∈ survivors) :=
    fun e he => hkept e (by simp [FramedTx.entries, he])
  rw [FramedTx.resolved_eq h hf, FramedTx.contribution, BeginKept, ← hbegin]
  by_cases hfirst : keptLsn survivors f.firstLsn = true
  · simp only [hfirst, if_true, true_or, implies_true, iff_true]
    split
    · exact .inl rfl
    · exact .inr rfl
  · simp only [hfirst, if_false, Bool.false_eq_true]
    cases hopen : frameOpen (survivors.filter (·.lsn < f.firstLsn)) with
    | true => simp
    | false =>
      simp only [Bool.false_eq_true, if_false, false_or, immediate_iff]
      constructor
      · rintro himp ⟨e, he, hmem⟩ x hx
        have hx' := himp ⟨e, he, (hops e he).mpr hmem⟩ x hx
        exact ⟨(hops x hx).mp hx'.1, hx'.2⟩
      · rintro himp ⟨e, he, hmem⟩ x hx
        have hx' := himp ⟨e, he, (hops e he).mp hmem⟩ x hx
        exact ⟨(hops x hx).mpr hx'.1, hx'.2⟩

lemma mem_of_isPrefix (h : survivors <+: stream.entries) {e x : WalEntry D C} (he : e ∈ survivors)
    (hx : x ∈ stream.entries) (hlt : x.lsn < e.lsn) : x ∈ survivors := by
  obtain ⟨rest, hrest⟩ := h
  have hsorted := stream.entries_sorted
  rw [← hrest] at hx hsorted
  rcases mem_append.mp hx with hx | hx
  · exact hx
  · exact absurd ((pairwise_append.mp hsorted).2.2 e he x hx) (by omega)

lemma resolvesCommitted (h : survivors <+: stream.entries) : ResolvesCommitted stream survivors := by
  intro f hf
  have hkept : ∀ e ∈ f.entries C, (keptLsn survivors e.lsn = true ↔ e ∈ survivors) :=
    fun e he => keptLsn_iff h.sublist (LogStream.mem_entries hf he)
  have hbegin : f.beginEntry C ∈ f.entries C := by simp [FramedTx.entries]
  have hcommit : f.commitEntry C ∈ f.entries C := by simp [FramedTx.entries]
  have hlsn : ∀ e ∈ f.entries C, f.firstLsn ≤ e.lsn ∧ e.lsn < f.commitLsn + 1 := fun e he =>
    LogItem.lsn_of_mem_entries (show e ∈ (LogItem.frame f).entries from he)
  have hdecide : f.commitLsn ∈ survivors.map (·.lsn) ↔ keptLsn survivors f.commitLsn = true := by
    simp [keptLsn]
  rw [FramedTx.resolved_eq h.sublist hf, FramedTx.contribution, FramedTx.all_entries]
  by_cases hmarker : keptLsn survivors f.commitLsn = true
  · -- the whole frame lies before the cut
    have hmem := (hkept _ hcommit).mp hmarker
    have hall : ∀ e ∈ f.entries C, keptLsn survivors e.lsn = true := by
      intro e he
      rcases Nat.lt_or_ge e.lsn f.commitLsn with hlt | hge
      · exact (hkept e he).mpr (mem_of_isPrefix h hmem (LogStream.mem_entries hf he) hlt)
      · have hle : e.lsn = f.commitLsn := by
          have := (hlsn e he).2
          omega
        rw [hle]
        exact hmarker
    have hops : (f.opEntries C).all (keptLsn survivors ·.lsn) = true :=
      all_eq_true.mpr fun e he => hall e (by simp [FramedTx.entries, he])
    have hfirst : keptLsn survivors f.firstLsn = true := hall _ hbegin
    rw [if_pos hfirst, if_pos (by rw [hfirst, hops, hmarker]; rfl), if_pos (hdecide.mpr hmarker)]
  · rw [if_neg fun hmem => hmarker (hdecide.mp hmem)]
    by_cases hfirst : keptLsn survivors f.firstLsn = true
    · rw [if_pos hfirst, if_neg (by simp [hmarker])]
    · have hnone : (f.opEntries C).filter (keptLsn survivors ·.lsn) = [] := by
        rw [filter_eq_nil_iff]
        intro e he hkeeps
        have hmem : e ∈ f.entries C := by simp [FramedTx.entries, he]
        exact hfirst ((hkept _ hbegin).mpr (mem_of_isPrefix h ((hkept e hmem).mp hkeeps)
          (LogStream.mem_entries hf hbegin) (f.lsn_of_mem_opEntries he).1))
      rw [if_neg hfirst, hnone, map_nil, ite_self]

/-- **Frames are applied as a whole or not at all** exactly when every frame with writes left has its
`BeginTx`, or is preceded by an open frame; a stream that is only cut gives back the transactions whose
marker lies before the cut. -/
theorem frames_all_or_nothing_iff (stream : LogStream D C) (survivors : List (WalEntry D C))
    (h : survivors.Sublist stream.entries) :
    (AllOrNothing stream survivors ∧
        (survivors <+: stream.entries → ResolvesCommitted stream survivors)) ↔
      ∀ f, .frame f ∈ stream.items → BeginKept f survivors := by
  constructor
  · rintro ⟨hall, -⟩ f hf
    exact (contribution_iff h hf).mp (hall f hf)
  · intro hkept
    exact ⟨fun f hf => (contribution_iff h hf).mpr (hkept f hf), resolvesCommitted⟩

def twoWrites : FramedTx ℕ where
  transaction := ⟨⟨7⟩, [10, 11], ⟨5, 0⟩, by decide, by decide⟩
  firstLsn := 1
  stamps _ := ⟨6, 0⟩

def twoWritesStream : LogStream ℕ Unit := ⟨[.frame twoWrites], List.pairwise_singleton _ _⟩

theorem frames_all_or_nothing_two_writes :
    twoWritesStream.entries.dropLast.Sublist twoWritesStream.entries ∧
      AllOrNothing twoWritesStream twoWritesStream.entries.dropLast := by
  have hsub := dropLast_sublist twoWritesStream.entries
  refine ⟨hsub, ((frames_all_or_nothing_iff twoWritesStream _ hsub).mpr ?_).1⟩
  rintro f hf -
  obtain rfl : f = twoWrites := by simpa [twoWritesStream] using hf
  exact .inl (by decide)

/-- Without its `BeginTx` and its first write, the second write is applied on its own, with the
timestamp of its serialization. -/
theorem torn_frame_applied :
    ∃ survivors : List (WalEntry ℕ Unit), survivors.Sublist twoWritesStream.entries ∧
      resolveTransactionFrames survivors = [(.data 11, ⟨6, 0⟩)] ∧
      ¬AllOrNothing twoWritesStream survivors := by
  refine ⟨twoWritesStream.entries.drop 2, drop_sublist _ _, by decide, fun hall => ?_⟩
  have htwo := hall twoWrites (by simp [twoWritesStream])
  exact absurd htwo (by decide)

end Aletheia
