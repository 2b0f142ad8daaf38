import Mathlib.Data.List.Basic
import Mathlib.Order.Interval.Basic

/-!
# Aligning timelines

The interval mathematics of temporal joins. A participant has a state timeline and may be gated by
the validity of an edge; `alignOverlap` cuts a range at every point where one of them may change and
keeps the pieces on which all are present. What a participant shows at an instant depends on the
instant only through its comparisons with the boundaries of the participant, so that it is constant
on a piece. Instants are microseconds; they are compared, never computed with.
-/

namespace Aletheia.TemporalJoin

open List

variable {P : Type}

/-! ### Participants -/

structure ChangePoint (P : Type) where
  validFrom : ℤ
  validTo : ℤ
  properties : P
deriving DecidableEq, Repr

/-- The change points in ascending order of `validFrom`. -/
structure Timeline (P : Type) where
  changes : List (ChangePoint P)
deriving DecidableEq, Repr

/-- `rposition`: the last index whose element satisfies `p`. -/
def rposition {α : Type} (p : α → Bool) : List α → Option ℕ
  | [] => none
  | a :: as =>
    match rposition p as with
    | some i => some (i + 1)
    | none => if p a then some 0 else none

def Timeline.sampleIndexAt (tl : Timeline P) (instant : ℤ) : Option ℕ :=
  (rposition (fun c => c.validFrom ≤ instant) tl.changes).bind fun idx =>
    (tl.changes[idx]?).bind fun c => if instant ≥ c.validTo then none else some idx

/-- Half-open intervals, which may overlap. -/
structure PresenceIntervals where
  intervals : List (ℤ × ℤ)
deriving DecidableEq, Repr

def PresenceIntervals.presentAt (g : PresenceIntervals) (instant : ℤ) : Bool :=
  g.intervals.any fun i => i.1 ≤ instant && instant < i.2

structure Participant (P : Type) where
  timeline : Timeline P
  gate : Option PresenceIntervals
deriving DecidableEq, Repr

namespace Participant

def gateOpenAt (p : Participant P) (instant : ℤ) : Bool :=
  p.gate.all (·.presentAt instant)

def sampleIndexAt (p : Participant P) (instant : ℤ) : Option ℕ :=
  if p.gateOpenAt instant then p.timeline.sampleIndexAt instant else none

def presentAt (p : Participant P) (instant : ℤ) : Bool := (p.sampleIndexAt instant).isSome

end Participant

/-! ### Rows -/

inductive AlignCoordinate where
  | instant (t : ℤ)
  /-- half-open -/
  | interval (start stop : ℤ)
deriving DecidableEq, Repr

structure AlignedRow where
  coordinate : AlignCoordinate
  sampleIndex : List (Option ℕ)
deriving DecidableEq, Repr

inductive AlignError where
  | emptyRange
  | noParticipants
  | driverOutOfRange
  | tooManyInstants (n : ℕ)
deriving DecidableEq, Repr

def maxAlignInstants : ℕ := 100000

/-- Insertion into a `BTreeSet`, as the ascending list of its elements. -/
def insertBoundary (b : ℤ) : List ℤ → List ℤ
  | [] => [b]
  | c :: cs => if b < c then b :: c :: cs else if b = c then c :: cs else c :: insertBoundary b cs

def addBoundary (bs : List ℤ) (b : ℤ) : Except AlignError (List ℤ) :=
  let bs := insertBoundary b bs
  if maxAlignInstants < bs.length then .error (.tooManyInstants bs.length) else .ok bs

def changeBoundaries (start stop : ℤ) (c : ChangePoint P) : List ℤ :=
  (if start ≤ c.validFrom ∧ c.validFrom < stop then [c.validFrom] else []) ++
    if start < c.validTo ∧ c.validTo < stop then [c.validTo] else []

def gateBoundaries (start stop : ℤ) (i : ℤ × ℤ) : List ℤ :=
  (if start < i.1 ∧ i.1 < stop then [i.1] else []) ++
    if start < i.2 ∧ i.2 < stop then [i.2] else []

def participantBoundaries (start stop : ℤ) (p : Participant P) : List ℤ :=
  p.timeline.changes.flatMap (changeBoundaries start stop) ++
    (p.gate.elim [] PresenceIntervals.intervals).flatMap (gateBoundaries start stop)

/-- One row for each piece on which every participant is present. The last piece ends at `stop`. -/
def overlapRows (participants : List (Participant P)) (stop : ℤ) : List ℤ → List AlignedRow
  | [] => []
  | s :: rest =>
    let e := rest.head?.getD stop
    let sampleIndex := participants.map (·.sampleIndexAt s)
    let rows := overlapRows participants stop rest
    if sampleIndex.all Option.isSome then ⟨.interval s e, sampleIndex⟩ :: rows else rows

def alignOverlap (participants : List (Participant P)) (start stop : ℤ) :
    Except AlignError (List AlignedRow) :=
  if participants.isEmpty then .error .noParticipants
  else if stop ≤ start then .error .emptyRange
  else do
    -- the cap is checked after every insertion
    let boundaries ←
      (participants.flatMap (participantBoundaries start stop)).foldlM addBoundary [start]
    return overlapRows participants stop boundaries

/-! ### The boundaries -/

lemma mem_insertBoundary {b c : ℤ} {bs : List ℤ} : c ∈ insertBoundary b bs ↔ c = b ∨ c ∈ bs := by
  induction bs with
  | nil => simp [insertBoundary]
  | cons d ds ih =>
    simp only [insertBoundary]
    split_ifs with h1 h2
    · simp
    · simp [h2]
    · simp only [mem_cons, ih]
      tauto

lemma pairwise_insertBoundary {b : ℤ} {bs : List ℤ} (h : bs.Pairwise (· < ·)) :
    (insertBoundary b bs).Pairwise (· < ·) := by
  induction bs with
  | nil => simp [insertBoundary]
  | cons d ds ih =>
    obtain ⟨hd, hds⟩ := pairwise_cons.mp h
    simp only [insertBoundary]
    split_ifs with h1 h2
    · refine pairwise_cons.mpr ⟨fun c hc => ?_, h⟩
      rcases mem_cons.mp hc with rfl | hc
      · exact h1
      · exact h1.trans (hd c hc)
    · exact h
    · refine pairwise_cons.mpr ⟨fun c hc => ?_, ih hds⟩
      rcases mem_insertBoundary.mp hc with rfl | hc
      · omega
      · exact hd c hc

lemma foldlM_addBoundary {new bs bs' : List ℤ} (h : new.foldlM addBoundary bs = .ok bs')
    (hbs : bs.Pairwise (· < ·)) : bs'.Pairwise (· < ·) ∧ ∀ c, c ∈ bs' ↔ c ∈ bs ∨ c ∈ new := by
  induction new generalizing bs with
  | nil =>
    cases h
    exact ⟨hbs, by simp⟩
  | cons b new ih =>
    simp only [foldlM_cons, addBoundary] at h
    split_ifs at h
    · cases h
    · obtain ⟨hsorted, hmem⟩ := ih h (pairwise_insertBoundary hbs)
      refine ⟨hsorted, fun c => ?_⟩
      rw [hmem, mem_insertBoundary, mem_cons]
      tauto

/-! ### Between two boundaries -/

/-- No comparison with `b` tells `s` and `t` apart. -/
def SameSide (s t b : ℤ) : Prop := b ≤ s ↔ b ≤ t

section Constant

variable {s t : ℤ}

lemma rposition_congr {α : Type} {p q : α → Bool} {l : List α} (h : ∀ a ∈ l, p a = q a) :
    rposition p l = rposition q l := by
  induction l with
  | nil => rfl
  | cons a l ih =>
    rw [rposition, rposition, ih fun b hb => h b (mem_cons_of_mem _ hb), h a mem_cons_self]

lemma Timeline.sampleIndexAt_congr {tl : Timeline P}
    (hfrom : ∀ c ∈ tl.changes, SameSide s t c.validFrom)
    (hto : ∀ c ∈ tl.changes, SameSide s t c.validTo) : tl.sampleIndexAt s = tl.sampleIndexAt t := by
  have hpos : rposition (fun c => decide (c.validFrom ≤ s)) tl.changes =
      rposition (fun c => decide (c.validFrom ≤ t)) tl.changes :=
    rposition_congr fun c hc => decide_eq_decide.mpr (hfrom c hc)
  unfold sampleIndexAt
  rw [hpos]
  cases rposition (fun c => decide (c.validFrom ≤ t)) tl.changes with
  | none => rfl
  | some idx =>
    cases hc : tl.changes[idx]? with
    | none => simp [hc]
    | some c =>
      have hside : c.validTo ≤ s ↔ c.validTo ≤ t := hto c (mem_of_getElem? hc)
      simp [hc, hside]

lemma PresenceIntervals.presentAt_congr {g : PresenceIntervals}
    (h : ∀ i ∈ g.intervals, SameSide s t i.1 ∧ SameSide s t i.2) :
    g.presentAt s = g.presentAt t := by
  unfold presentAt
  rw [Bool.eq_iff_iff, any_eq_true, any_eq_true]
  refine exists_congr fun i => and_congr_right fun hi => ?_
  obtain ⟨h1, h2⟩ := h i hi
  unfold SameSide at h1 h2
  simp only [Bool.and_eq_true, decide_eq_true_eq]
  omega

lemma sameSide_of_not_between {b : ℤ} (hst : s ≤ t) (h : ¬ (s < b ∧ b ≤ t)) : SameSide s t b := by
  unfold SameSide
  omega

/-- **A participant does not change between two boundaries.** -/
lemma Participant.sampleIndexAt_congr {p : Participant P} {start stop : ℤ} (hfrom : start ≤ s)
    (hst : s ≤ t) (hto : t < stop)
    (hnone : ∀ b ∈ participantBoundaries start stop p, ¬ (s < b ∧ b ≤ t)) :
    p.sampleIndexAt s = p.sampleIndexAt t := by
  have hchange : ∀ c ∈ p.timeline.changes, ∀ b ∈ changeBoundaries start stop c,
      ¬ (s < b ∧ b ≤ t) := fun c hc b hb =>
    hnone b (mem_append_left _ (mem_flatMap.mpr ⟨c, hc, hb⟩))
  have hgate : ∀ g, p.gate = some g → ∀ i ∈ g.intervals, ∀ b ∈ gateBoundaries start stop i,
      ¬ (s < b ∧ b ≤ t) := fun g hg i hi b hb =>
    hnone b (mem_append_right _ (mem_flatMap.mpr ⟨i, by simpa [hg] using hi, hb⟩))
  -- a boundary outside the range is not between `s` and `t` either
  have htimeline : p.timeline.sampleIndexAt s = p.timeline.sampleIndexAt t := by
    refine Timeline.sampleIndexAt_congr (fun c hc => ?_) fun c hc => ?_
    · refine sameSide_of_not_between hst fun hb => hchange c hc c.validFrom ?_ hb
      have : start ≤ c.validFrom ∧ c.validFrom < stop := by omega
      simp [changeBoundaries, this]
    · refine sameSide_of_not_between hst fun hb => hchange c hc c.validTo ?_ hb
      have : start < c.validTo ∧ c.validTo < stop := by omega
      simp [changeBoundaries, this]
  have hopen : p.gateOpenAt s = p.gateOpenAt t := by
    unfold gateOpenAt
    cases hg : p.gate with
    | none => rfl
    | some g =>
      refine PresenceIntervals.presentAt_congr fun i hi => ⟨?_, ?_⟩
      · refine sameSide_of_not_between hst fun hb => hgate g hg i hi i.1 ?_ hb
        have : start < i.1 ∧ i.1 < stop := by omega
        simp [gateBoundaries, this]
      · refine sameSide_of_not_between hst fun hb => hgate g hg i hi i.2 ?_ hb
        have : start < i.2 ∧ i.2 < stop := by omega
        simp [gateBoundaries, this]
  unfold sampleIndexAt
  rw [htimeline, hopen]

end Constant

/-! ### The rows -/

section Rows

variable {ps : List (Participant P)} {stop : ℤ} {bs : List ℤ}

/-- The row of the piece from `s` to `e`. -/
def IsRow (ps : List (Participant P)) (bs : List ℤ) (stop s e : ℤ) (r : AlignedRow) : Prop :=
  r = ⟨.interval s e, ps.map (·.sampleIndexAt s)⟩ ∧ s ∈ bs ∧ s < e ∧ e ≤ stop ∧
    (∀ b ∈ bs, ¬ (s < b ∧ b < e)) ∧ ∀ p ∈ ps, p.presentAt s

lemma all_isSome_iff {s : ℤ} :
    (ps.map (·.sampleIndexAt s)).all Option.isSome = true ↔ ∀ p ∈ ps, p.presentAt s := by
  simp [Participant.presentAt]

lemma head_bounds {s : ℤ} (hsorted : (s :: bs).Pairwise (· < ·)) (hto : ∀ b ∈ s :: bs, b < stop) :
    s < bs.head?.getD stop ∧ bs.head?.getD stop ≤ stop ∧ ∀ b ∈ bs, bs.head?.getD stop ≤ b := by
  cases bs with
  | nil => simpa using hto s
  | cons c cs =>
    simp only [pairwise_cons, mem_cons, forall_eq_or_imp, List.head?_cons,
      Option.getD_some] at hsorted hto ⊢
    exact ⟨hsorted.1.1, hto.2.1.le, le_rfl, fun b hb => (hsorted.2.1 b hb).le⟩

lemma isRow_of_mem (hsorted : bs.Pairwise (· < ·)) (hto : ∀ b ∈ bs, b < stop) {r : AlignedRow}
    (hr : r ∈ overlapRows ps stop bs) : ∃ s e, IsRow ps bs stop s e r := by
  induction bs with
  | nil => cases hr
  | cons s bs ih =>
    obtain ⟨hse, heto, hnext⟩ := head_bounds hsorted hto
    have hrest : r ∈ overlapRows ps stop bs → ∃ s' e', IsRow ps (s :: bs) stop s' e' r := by
      intro hr
      obtain ⟨s', e', heq, hs', hlt, hle, hnone, hall⟩ :=
        ih hsorted.of_cons (fun b hb => hto b (mem_cons_of_mem _ hb)) hr
      refine ⟨s', e', heq, mem_cons_of_mem _ hs', hlt, hle, fun b hb => ?_, hall⟩
      rcases mem_cons.mp hb with rfl | hb
      · have := rel_of_pairwise_cons hsorted hs'
        omega
      · exact hnone b hb
    rw [overlapRows] at hr
    split_ifs at hr with hall
    · rcases mem_cons.mp hr with rfl | hr
      · refine ⟨s, _, rfl, mem_cons_self, hse, heto, fun b hb => ?_, all_isSome_iff.mp hall⟩
        rcases mem_cons.mp hb with rfl | hb
        · omega
        · have := hnext b hb
          omega
      · exact hrest hr
    · exact hrest hr

lemma pairwise_overlapRows (hsorted : bs.Pairwise (· < ·)) (hto : ∀ b ∈ bs, b < stop) :
    (overlapRows ps stop bs).Pairwise fun r r' => ∀ s e s' e', r.coordinate = .interval s e →
      r'.coordinate = .interval s' e' → e ≤ s' := by
  induction bs with
  | nil => exact List.Pairwise.nil
  | cons s bs ih =>
    have hto' : ∀ b ∈ bs, b < stop := fun b hb => hto b (mem_cons_of_mem _ hb)
    obtain ⟨-, -, hnext⟩ := head_bounds hsorted hto
    rw [overlapRows]
    split_ifs
    · refine pairwise_cons.mpr ⟨fun r hr s₁ e₁ s₂ e₂ h1 h2 => ?_, ih hsorted.of_cons hto'⟩
      obtain ⟨s', e', rfl, hs', -⟩ := isRow_of_mem hsorted.of_cons hto' hr
      cases h1
      obtain ⟨rfl, rfl⟩ := AlignCoordinate.interval.inj h2
      exact hnext s' hs'
    · exact ih hsorted.of_cons hto'

variable (ps) in
/-- Every instant after the first boundary is in a piece, and a piece has a row if all are present
at its left end. -/
lemma exists_piece (hsorted : bs.Pairwise (· < ·)) (hto : ∀ b ∈ bs, b < stop) {t : ℤ}
    (hfirst : ∃ b ∈ bs, b ≤ t) (ht : t < stop) :
    ∃ s e, s ∈ bs ∧ s ≤ t ∧ t < e ∧ (∀ b ∈ bs, ¬ (s < b ∧ b < e)) ∧ ((∀ p ∈ ps, p.presentAt s) →
      ⟨.interval s e, ps.map (·.sampleIndexAt s)⟩ ∈ overlapRows ps stop bs) := by
  induction bs with
  | nil => simp at hfirst
  | cons s bs ih =>
    obtain ⟨-, -, hnext⟩ := head_bounds hsorted hto
    by_cases hlater : ∃ b ∈ bs, b ≤ t
    · obtain ⟨s', e', hs', hle, hlt, hnone, hrow⟩ :=
        ih hsorted.of_cons (fun b hb => hto b (mem_cons_of_mem _ hb)) hlater
      refine ⟨s', e', mem_cons_of_mem _ hs', hle, hlt, fun b hb => ?_, fun hall => ?_⟩
      · rcases mem_cons.mp hb with rfl | hb
        · have := rel_of_pairwise_cons hsorted hs'
          omega
        · exact hnone b hb
      · rw [overlapRows]
        split_ifs
        · exact mem_cons_of_mem _ (hrow hall)
        · exact hrow hall
    · -- the instant is in the first piece
      have hst : s ≤ t := by
        obtain ⟨b, hb, hbt⟩ := hfirst
        rcases mem_cons.mp hb with rfl | hb
        · exact hbt
        · exact absurd ⟨b, hb, hbt⟩ hlater
      have hte : t < bs.head?.getD stop := by
        cases bs with
        | nil => exact ht
        | cons c cs => exact lt_of_not_ge fun hc => hlater ⟨c, mem_cons_self, hc⟩
      refine ⟨s, _, mem_cons_self, hst, hte, fun b hb => ?_, fun hall => ?_⟩
      · rcases mem_cons.mp hb with rfl | hb
        · omega
        · have := hnext b hb
          omega
      · rw [overlapRows, if_pos (all_isSome_iff.mpr hall)]
        exact mem_cons_self

end Rows

/-- **Interval-overlap alignment is exact.** The rows cover ascending, disjoint, non-empty pieces of
the range; an instant is in a piece exactly when every participant is present there, and what a row
records of a participant is what the participant shows at every instant of the piece. -/
theorem alignOverlap_exact {participants : List (Participant P)} {start stop : ℤ}
    {rows : List AlignedRow} (h : alignOverlap participants start stop = .ok rows) :
    (∀ r ∈ rows, ∃ s e, r.coordinate = .interval s e ∧ start ≤ s ∧ s < e ∧ e ≤ stop) ∧
    (rows.Pairwise fun r r' => ∀ s e s' e', r.coordinate = .interval s e →
      r'.coordinate = .interval s' e' → e ≤ s') ∧
    (∀ t, start ≤ t → t < stop →
      ((∃ r ∈ rows, ∃ s e, r.coordinate = .interval s e ∧ s ≤ t ∧ t < e) ↔
        ∀ p ∈ participants, p.presentAt t)) ∧
    ∀ r ∈ rows, ∀ s e t, r.coordinate = .interval s e → s ≤ t → t < e →
      r.sampleIndex = participants.map (·.sampleIndexAt t) := by
  unfold alignOverlap at h
  split_ifs at h with hempty hrange
  obtain ⟨bs, hbs, rfl⟩ : ∃ bs, (participants.flatMap (participantBoundaries start stop)).foldlM
      addBoundary [start] = .ok bs ∧ overlapRows participants stop bs = rows := by
    cases hb : (participants.flatMap (participantBoundaries start stop)).foldlM addBoundary
        [start] with
    | error e => simp [hb] at h
    | ok bs => exact ⟨bs, rfl, by simpa [hb] using h⟩
  obtain ⟨hsorted, hmem⟩ := foldlM_addBoundary hbs (pairwise_singleton _ _)
  have hrangeOf : ∀ b ∈ bs, start ≤ b ∧ b < stop := by
    intro b hb
    rcases (hmem b).mp hb with hb | hb
    · rw [mem_singleton.mp hb]
      omega
    · simp only [mem_flatMap, participantBoundaries, changeBoundaries, gateBoundaries,
        mem_append] at hb
      obtain ⟨p, -, ⟨c, -, hb | hb⟩ | ⟨i, -, hb | hb⟩⟩ := hb <;> split_ifs at hb with hin <;>
        simp at hb <;> omega
  have hto : ∀ b ∈ bs, b < stop := fun b hb => (hrangeOf b hb).2
  have hconst : ∀ {s e t}, s ∈ bs → (∀ b ∈ bs, ¬ (s < b ∧ b < e)) → s ≤ t → t < e → t < stop →
      ∀ p ∈ participants, p.sampleIndexAt s = p.sampleIndexAt t := by
    intro s e t hs hnone hst hte htto p hp
    refine Participant.sampleIndexAt_congr (hrangeOf s hs).1 hst htto fun b hb hbetween => ?_
    have : b ∈ bs := (hmem b).mpr (.inr (mem_flatMap.mpr ⟨p, hp, hb⟩))
    exact hnone b this ⟨hbetween.1, by omega⟩
  refine ⟨fun r hr => ?_, pairwise_overlapRows hsorted hto, fun t hfrom ht => ⟨?_, ?_⟩, ?_⟩
  · obtain ⟨s, e, rfl, hs, hlt, hle, -⟩ := isRow_of_mem hsorted hto hr
    exact ⟨s, e, rfl, (hrangeOf s hs).1, hlt, hle⟩
  · rintro ⟨r, hr, s, e, hcoord, hst, hte⟩ p hp
    obtain ⟨s', e', rfl, hs, -, hle, hnone, hall⟩ := isRow_of_mem hsorted hto hr
    cases hcoord
    rw [Participant.presentAt, ← hconst hs hnone hst hte ht p hp]
    exact hall p hp
  · intro hall
    obtain ⟨s, e, hs, hst, hte, hnone, hrow⟩ := exists_piece participants hsorted hto
      ⟨start, (hmem start).mpr (.inl mem_cons_self), hfrom⟩ ht
    refine ⟨_, hrow fun p hp => ?_, s, e, rfl, hst, hte⟩
    rw [Participant.presentAt, hconst hs hnone hst hte ht p hp]
    exact hall p hp
  · intro r hr s e t hcoord hst hte
    obtain ⟨s', e', rfl, hs, -, hle, hnone, -⟩ := isRow_of_mem hsorted hto hr
    cases hcoord
    exact map_congr_left (hconst hs hnone hst hte (hte.trans_le hle))

/-- A gated participant with a closed interval beside one that is always there. -/
def gatedPair : List (Participant ℕ) :=
  [⟨⟨[⟨0, 10, 1⟩, ⟨20, 30, 2⟩]⟩, none⟩, ⟨⟨[⟨0, 100, 3⟩]⟩, some ⟨[(4, 8), (6, 25)]⟩⟩]

theorem alignOverlap_exact_gatedPair :
    alignOverlap gatedPair 2 40 = .ok [⟨.interval 4 6, [some 0, some 0]⟩,
      ⟨.interval 6 8, [some 0, some 0]⟩, ⟨.interval 8 10, [some 0, some 0]⟩,
      ⟨.interval 20 25, [some 1, some 0]⟩] ∧
    ((∃ r ∈ [⟨.interval 4 6, [some 0, some 0]⟩, ⟨.interval 6 8, [some 0, some 0]⟩,
        ⟨.interval 8 10, [some 0, some 0]⟩, (⟨.interval 20 25, [some 1, some 0]⟩ : AlignedRow)],
        ∃ s e, r.coordinate = .interval s e ∧ s ≤ 12 ∧ 12 < e) ↔
      ∀ p ∈ gatedPair, p.presentAt 12) := by
  have h : alignOverlap gatedPair 2 40 = .ok [⟨.interval 4 6, [some 0, some 0]⟩,
      ⟨.interval 6 8, [some 0, some 0]⟩, ⟨.interval 8 10, [some 0, some 0]⟩,
      ⟨.interval 20 25, [some 1, some 0]⟩] := by decide +kernel
  exact ⟨h, (alignOverlap_exact h).2.2.1 12 (by decide) (by decide)⟩

end Aletheia.TemporalJoin
