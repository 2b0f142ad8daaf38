import Aletheia.ChainEvidence

/-!
# Sealing in any order

Transactions with different commit timestamps may be sealed in any order: the chain holds them in
the order of their timestamps, folded from the genesis, and so depends only on which of them were
sealed.
-/

namespace Aletheia.Provenance

open List

variable {sha : List UInt8 → Digest} {src : VersionSource} {genesis : ChainHead}
  {inner : ChainInner} {pending : PendingTx} {shell : ChainTxRecord} {records : List ChainTxRecord}
  {β : Type} {genesis' : ChainHead}

/-! ### Commit timestamps -/

abbrev Stamp := ℤ ×ₗ ℕ

def stampOf (wallclock : Int64) (logical : UInt32) : Stamp := toLex (wallclock.toInt, logical.toNat)

lemma stampOf_inj {w w' : Int64} {l l' : UInt32} (h : stampOf w l = stampOf w' l') :
    w = w' ∧ l = l' := by
  obtain ⟨hw, hl⟩ := Prod.mk.inj (toLex.injective h)
  exact ⟨Int64.toInt_inj.mp hw, UInt32.toNat_inj.mp hl⟩

def ChainTxRecord.stamp (r : ChainTxRecord) : Stamp := stampOf r.commitTs r.commitTsLogical

def PendingTx.stamp (p : PendingTx) : Stamp := stampOf p.commitTsMicros p.commitTsLogical

/-- What the record says, without its place in the chain and its metadata. -/
abbrev Body := Int64 × UInt32 × List Digest × List VersionRef

def ChainTxRecord.body (r : ChainTxRecord) : Body :=
  (r.commitTs, r.commitTsLogical, r.leaves, r.entityRefs)

def Body.stamp (b : Body) : Stamp := stampOf b.1 b.2.1

lemma ChainTxRecord.stamp_body (r : ChainTxRecord) : r.body.stamp = r.stamp := rfl

lemma ChainTxRecord.key_lt_iff {a b : ChainTxRecord} (h : a.stamp ≠ b.stamp) :
    a.key < b.key ↔ a.stamp < b.stamp := by
  simp only [ChainTxRecord.stamp, stampOf, ne_eq, toLex_inj, Prod.mk.injEq, not_and] at h
  simp only [ChainTxRecord.key, Provenance.key, ChainTxRecord.stamp, stampOf, Prod.Lex.toLex_lt_toLex]
  constructor
  · rintro (hlt | ⟨heq, hlt | ⟨heq', -⟩⟩)
    · exact .inl hlt
    · exact .inr ⟨heq, hlt⟩
    · exact absurd heq' (h heq)
  · rintro (hlt | ⟨heq, hlt⟩)
    · exact .inl hlt
    · exact .inr ⟨heq, .inl hlt⟩

/-! ### Folding -/

section Folding

variable {prev : Digest} {l m : List ChainTxRecord} {seq : ℕ}

lemma map_refoldFrom (g : ChainTxRecord → β)
    (hg : ∀ r seq digest, g { r with seq := seq, digest := digest } = g r) :
    (refoldFrom sha prev seq l).map g = l.map g := by
  induction l generalizing prev seq with
  | nil => rfl
  | cons r l ih => simp [refoldFrom, hg, ih]

lemma refoldFrom_append : refoldFrom sha prev seq (l ++ m) =
    refoldFrom sha prev seq l ++ refoldFrom sha (foldDigest sha prev l) (seq + l.length) m := by
  induction l generalizing prev seq with
  | nil => rfl
  | cons r l ih =>
    simp only [cons_append, refoldFrom, ih, foldDigest, foldl_cons, length_cons]
    rw [Nat.add_right_comm, Nat.add_assoc]

lemma refoldFrom_refoldFrom :
    refoldFrom sha prev seq (refoldFrom sha prev seq l) = refoldFrom sha prev seq l := by
  induction l generalizing prev seq with
  | nil => rfl
  | cons r l ih =>
    simp only [refoldFrom]
    congr 1
    exact ih

lemma length_refoldFrom : (refoldFrom sha prev seq l).length = l.length := by
  rw [← length_map (f := ChainTxRecord.stamp), map_refoldFrom _ fun _ _ _ => rfl, length_map]

lemma Folded.of_append (h : Folded sha genesis (l ++ m)) : Folded sha genesis l := by
  rw [Folded, refoldFrom_append] at h
  exact (append_inj h length_refoldFrom).1

lemma refoldSuffix_eq (h : Folded sha genesis l) :
    refoldSuffix sha genesis (l ++ m) l.length = refoldFrom sha genesis.digest 1 (l ++ m) := by
  have hprev : (l.getLast?.map (·.digest)).getD genesis.digest = foldDigest sha genesis.digest l := by
    rcases eq_or_ne l [] with rfl | hne
    · rfl
    · have hseq := headOf_folded h hne
      simp only [headOf] at hseq
      rw [List.getLast?_eq_some_getLast hne] at hseq ⊢
      exact hseq.2.1
  rw [refoldSuffix, take_left, drop_left, hprev, refoldFrom_append, h, Nat.add_comm]

end Folding

/-! ### Sealing one transaction -/

variable (sha src pending) in
/-- The record of the transaction before it has its place. -/
def shellOf : Option ChainTxRecord :=
  let kept := resolveRefs sha src pending.entityRefs
  if kept.isEmpty then none
  else some ⟨0, pending.commitTsMicros, pending.commitTsLogical, pending.txId, pending.anchorLsn,
    kept.map Prod.snd, kept.map Prod.fst, Vector.replicate 32 0⟩

variable (sha src pending) in
def bodyOf : Option Body := (shellOf sha src pending).map ChainTxRecord.body

lemma stamp_of_bodyOf {b : Body} (h : bodyOf sha src pending = some b) : b.stamp = pending.stamp := by
  obtain ⟨shell, hshell, rfl⟩ := Option.map_eq_some_iff.mp h
  simp only [shellOf] at hshell
  split at hshell
  · cases hshell
  · cases hshell
    rfl

/-- The records with the smaller keys, and the others. -/
def before (records : List ChainTxRecord) (shell : ChainTxRecord) : List ChainTxRecord :=
  records.takeWhile fun r => decide (r.key < shell.key)

def behind (records : List ChainTxRecord) (shell : ChainTxRecord) : List ChainTxRecord :=
  records.dropWhile fun r => decide (r.key < shell.key)

lemma before_append_behind (records : List ChainTxRecord) (shell : ChainTxRecord) :
    before records shell ++ behind records shell = records :=
  takeWhile_append_dropWhile

lemma insertIdx_before (records : List ChainTxRecord) (shell : ChainTxRecord) :
    records.insertIdx (before records shell).length shell =
      before records shell ++ shell :: behind records shell := by
  induction records with
  | nil => rfl
  | cons r records ih =>
    by_cases h : r.key < shell.key
    · simpa [before, behind, h] using ih
    · simp [before, behind, h]

lemma sealOne_eq : sealOne sha src genesis inner pending =
    match shellOf sha src pending with
    | none => inner
    | some shell =>
      let records := refoldSuffix sha genesis
        (inner.records.insertIdx (before inner.records shell).length shell)
        (before inner.records shell).length
      ⟨records, headOf genesis records⟩ := by
  simp only [sealOne, shellOf]
  by_cases hempty : (resolveRefs sha src pending.entityRefs).isEmpty
  · simp only [hempty, if_true]
  · simp only [hempty]
    rfl

lemma sealOne_of_none (h : shellOf sha src pending = none) :
    sealOne sha src genesis inner pending = inner := by
  rw [sealOne_eq, h]

lemma sealOne_of_some (hfolded : Folded sha genesis inner.records)
    (h : shellOf sha src pending = some shell) :
    let records := refoldFrom sha genesis.digest 1
      (before inner.records shell ++ shell :: behind inner.records shell)
    sealOne sha src genesis inner pending = ⟨records, headOf genesis records⟩ := by
  have hbefore : Folded sha genesis (before inner.records shell) := by
    rw [← before_append_behind inner.records shell] at hfolded
    exact hfolded.of_append
  rw [sealOne_eq, h]
  simp only [insertIdx_before, refoldSuffix_eq hbefore]

/-! ### Sealed chains -/

/-- The chain holds its records in the order of their timestamps, which are all different, and is
folded from the genesis. -/
structure Sealed (sha : List UInt8 → Digest) (genesis : ChainHead) (inner : ChainInner) : Prop where
  ordered : inner.records.Pairwise fun a b => a.stamp < b.stamp
  folded : Folded sha genesis inner.records
  head : inner.head = headOf genesis inner.records

lemma stamp_shellOf (h : shellOf sha src pending = some shell) : shell.stamp = pending.stamp := by
  rw [← shell.stamp_body]
  exact stamp_of_bodyOf (by rw [bodyOf, h]; rfl)

lemma mem_inserted {shell r : ChainTxRecord} :
    r ∈ before records shell ++ shell :: behind records shell ↔ r = shell ∨ r ∈ records := by
  rw [perm_middle.mem_iff, mem_cons, before_append_behind]

/-- The new record stands between those with smaller and those with larger values, where the keys
are compared as the values are. -/
lemma ordered_insert [LinearOrder β] (f : ChainTxRecord → β)
    (hf : ∀ r ∈ records, (r.key < shell.key ↔ f r < f shell)) (hnew : ∀ r ∈ records, f r ≠ f shell)
    (h : records.Pairwise fun a b => f a < f b) :
    (before records shell ++ shell :: behind records shell).Pairwise fun a b => f a < f b := by
  induction records with
  | nil => simp [before, behind]
  | cons r records ih =>
    obtain ⟨hr, hrest⟩ := pairwise_cons.mp h
    rw [forall_mem_cons] at hf hnew
    by_cases hlt : r.key < shell.key
    · have hsplit : before (r :: records) shell ++ shell :: behind (r :: records) shell =
          r :: (before records shell ++ shell :: behind records shell) := by
        simp [before, behind, hlt]
      rw [hsplit]
      refine pairwise_cons.mpr ⟨fun x hx => ?_, ih hf.2 hnew.2 hrest⟩
      rcases mem_inserted.mp hx with rfl | hx
      · exact hf.1.mp hlt
      · exact hr x hx
    · have hlarger : f shell < f r := lt_of_le_of_ne (not_lt.mp (hf.1.not.mp hlt)) hnew.1.symm
      simp only [before, behind, takeWhile_cons, dropWhile_cons, hlt, decide_false]
      exact pairwise_cons.mpr
        ⟨forall_mem_cons.mpr ⟨hlarger, fun x hx => hlarger.trans (hr x hx)⟩, h⟩

lemma pairwise_refoldFrom [LinearOrder β] {f : ChainTxRecord → β}
    (hf : ∀ r seq digest, f { r with seq := seq, digest := digest } = f r) {prev : Digest} {seq : ℕ}
    {l : List ChainTxRecord} : ((refoldFrom sha prev seq l).Pairwise fun a b => f a < f b) ↔
      l.Pairwise fun a b => f a < f b := by
  have hmap : ∀ m : List ChainTxRecord,
      (m.Pairwise fun a b => f a < f b) ↔ (m.map f).Pairwise (· < ·) :=
    fun m => pairwise_map.symm
  rw [hmap, map_refoldFrom f hf, ← hmap]

lemma Sealed.sealOne (h : Sealed sha genesis inner)
    (hnew : ∀ r ∈ inner.records, r.stamp ≠ pending.stamp) :
    Sealed sha genesis (sealOne sha src genesis inner pending) := by
  cases hshell : shellOf sha src pending with
  | none => rwa [sealOne_of_none hshell]
  | some shell =>
    rw [← stamp_shellOf hshell] at hnew
    rw [sealOne_of_some h.folded hshell]
    refine ⟨?_, refoldFrom_refoldFrom, rfl⟩
    rw [pairwise_refoldFrom fun _ _ _ => rfl]
    exact ordered_insert ChainTxRecord.stamp (fun r hr => ChainTxRecord.key_lt_iff (hnew r hr)) hnew
      h.ordered

def ChainInner.bodies (inner : ChainInner) : List Body := inner.records.map ChainTxRecord.body

lemma mem_bodies_sealOne {b : Body} (h : Folded sha genesis inner.records) :
    b ∈ (sealOne sha src genesis inner pending).bodies ↔
      b ∈ inner.bodies ∨ bodyOf sha src pending = some b := by
  rw [bodyOf]
  cases hshell : shellOf sha src pending with
  | none => simp [sealOne_of_none hshell]
  | some shell =>
    rw [sealOne_of_some h hshell, ChainInner.bodies, ChainInner.bodies,
      map_refoldFrom ChainTxRecord.body fun _ _ _ => rfl]
    simp only [mem_map, mem_inserted, or_and_right, exists_or, exists_eq_left, Option.map_some,
      Option.some.injEq, or_comm]

/-! ### Sealing a list of transactions -/

variable (sha src genesis) in
def sealAll (inner : ChainInner) (pendings : List PendingTx) : ChainInner :=
  pendings.foldl (sealOne sha src genesis) inner

variable (src) in
lemma Sealed.sealAll {pendings : List PendingTx} (h : Sealed sha genesis inner)
    (hdistinct : pendings.Pairwise fun p q => p.stamp ≠ q.stamp)
    (hnew : ∀ b ∈ inner.bodies, ∀ p ∈ pendings, b.stamp ≠ p.stamp) :
    Sealed sha genesis (sealAll sha src genesis inner pendings) ∧
      ∀ b, b ∈ (Provenance.sealAll sha src genesis inner pendings).bodies ↔
        b ∈ inner.bodies ∨ ∃ p ∈ pendings, bodyOf sha src p = some b := by
  induction pendings generalizing inner with
  | nil => exact ⟨h, fun b => by simp [Provenance.sealAll]⟩
  | cons p pendings ih =>
    obtain ⟨hp, hdistinct⟩ := pairwise_cons.mp hdistinct
    have hfirst : ∀ r ∈ inner.records, r.stamp ≠ p.stamp := fun r hr =>
      hnew r.body (mem_map_of_mem hr) p (by simp)
    have hnew' : ∀ b ∈ (Provenance.sealOne sha src genesis inner p).bodies, ∀ q ∈ pendings,
        b.stamp ≠ q.stamp := by
      intro b hb q hq
      rcases (mem_bodies_sealOne h.folded).mp hb with hb | hb
      · exact hnew b hb q (mem_cons_of_mem _ hq)
      · rw [stamp_of_bodyOf hb]
        exact hp q hq
    obtain ⟨hsealed, hmem⟩ := ih (h.sealOne hfirst) hdistinct hnew'
    refine ⟨hsealed, fun b => (hmem b).trans ?_⟩
    rw [mem_bodies_sealOne h.folded]
    simp [or_assoc]

/-! ### Chains with the same bodies -/

lemma Sealed.bodies_ordered (h : Sealed sha genesis inner) :
    inner.bodies.Pairwise fun a b => a.stamp < b.stamp :=
  pairwise_map.mpr h.ordered

lemma eq_of_mem_iff_of_ordered {β γ : Type} [LinearOrder γ] (f : β → γ) {l m : List β}
    (hl : l.Pairwise fun a b => f a < f b) (hm : m.Pairwise fun a b => f a < f b)
    (h : ∀ b, b ∈ l ↔ b ∈ m) : l = m := by
  have : Std.Antisymm fun a b => f a < f b := ⟨fun a b hab hba => absurd hba hab.asymm⟩
  have : Std.Irrefl fun a b => f a < f b := ⟨fun a => lt_irrefl _⟩
  exact hl.eq_of_mem_iff hm h

lemma digest_headOf_eq {l l' : List ChainTxRecord} (h : Folded sha genesis l)
    (h' : Folded sha genesis' l') (hgenesis : genesis.digest = genesis'.digest)
    (hbodies : l.map ChainTxRecord.body = l'.map ChainTxRecord.body) :
    (headOf genesis l).digest = (headOf genesis' l').digest := by
  rcases eq_or_ne l [] with rfl | hne
  · obtain rfl := map_eq_nil_iff.mp hbodies.symm
    exact hgenesis
  · have hne' : l' ≠ [] := by
      rintro rfl
      exact hne (map_eq_nil_iff.mp hbodies)
    have hcontent : ∀ l : List ChainTxRecord, ∀ prev, foldDigest sha prev l =
        (l.map ChainTxRecord.body).foldl
          (fun digest b => chainStep sha digest (txDigest sha b.1 b.2.1 b.2.2.1)) prev := by
      intro l prev
      rw [foldl_map]
      rfl
    rw [(headOf_folded h hne).2.1, (headOf_folded h' hne').2.1, hcontent, hcontent, hgenesis,
      hbodies]

lemma Sealed.digest_head_eq {inner' : ChainInner} (h : Sealed sha genesis inner)
    (h' : Sealed sha genesis' inner') (hgenesis : genesis.digest = genesis'.digest)
    (hbodies : inner.bodies = inner'.bodies) : inner.head.digest = inner'.head.digest := by
  rw [h.head, h'.head]
  exact digest_headOf_eq h.folded h'.folded hgenesis hbodies

end Aletheia.Provenance
