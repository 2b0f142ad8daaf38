import Aletheia.Exec
import Aletheia.HashChain
import Aletheia.ProvenanceChain

/-!
# Tampering shows

The encodings under the hashes are injective up to the order of the properties, and the four kinds of
hashes have different domain tags. If SHA-256 has no collision among the inputs compared, versions that
pass verification are the ones that were sealed, and records that fold to an exported anchor are the
ones it was exported over.
-/

namespace Aletheia.Provenance

open ByteCode Exec List

variable {genesis : ChainHead}

/-! ### The encoding of a version -/

/-- The same content, with the properties in any order. -/
def VersionHashInput.SameContent (a b : VersionHashInput) : Prop :=
  { a with properties := b.properties } = b ∧ a.properties.1.Perm b.properties.1

lemma splits_kind : Splits Eq fun k : EntityKind => [k.tag] := by
  refine splitsOn_of_width 1 (fun _ _ => rfl) fun a b _ _ h => ?_
  cases a <;> cases b <;> first | rfl | exact absurd h (by decide)

lemma splits_provenance : Splits Eq Canon.provenance := by
  rintro ⟨source, confidence, note, correlationId, principal⟩
    ⟨source', confidence', note', correlationId', principal'⟩ - - x y h
  simp only [Canon.provenance, append_assoc] at h
  obtain ⟨hsource, h⟩ := Canon.splits_text.opt_eq.split h
  obtain ⟨hconfidence, h⟩ := Canon.splits_f64bits.opt_eq.split h
  obtain ⟨hnote, h⟩ := Canon.splits_text.opt_eq.split h
  obtain ⟨hcorrelationId, h⟩ := Canon.splits_text.opt_eq.split h
  obtain ⟨hprincipal, h⟩ := Canon.splits_text.opt_eq.split h
  exact ⟨by rw [hsource, hconfidence, hnote, hcorrelationId, hprincipal], h⟩

lemma splits_property : Splits Eq Canon.property := by
  rintro ⟨name, value⟩ ⟨name', value'⟩ - - x y h
  simp only [Canon.property, append_assoc] at h
  obtain ⟨hname, h⟩ := Canon.splits_text.split h
  obtain ⟨hvalue, h⟩ := Canon.splits_value.split h
  exact ⟨by rw [hname, hvalue], h⟩

lemma sortedProperties_perm (l : List (Text × StoredValue)) : (Canon.sortedProperties l).Perm l :=
  mergeSort_perm l _

lemma perm_of_counted {l m : Vec (Text × StoredValue)}
    (h : counted Canon.property (Canon.sortedProperties l.1) =
      counted Canon.property (Canon.sortedProperties m.1)) : l.1.Perm m.1 := by
  have hl := sortedProperties_perm l.1
  have hm := sortedProperties_perm m.1
  have hsplit := splits_property.counted (Canon.sortedProperties l.1) (Canon.sortedProperties m.1)
    ⟨by rw [hl.length_eq]; exact l.2, fun _ _ => trivial⟩
    ⟨by rw [hm.length_eq]; exact m.2, fun _ _ => trivial⟩ [] [] (by rw [h])
  rw [forall₂_eq_eq_eq] at hsplit
  exact hl.symm.trans (hsplit.1 ▸ hm)

lemma sameContent_of_versionCanonical {a b : VersionHashInput}
    (h : versionCanonical a = versionCanonical b) : a.SameContent b := by
  obtain ⟨kind, entity, version, prev, label, source, target, validFrom, validTo, txFrom, txTo,
    current, tombstone, provenance, properties⟩ := a
  obtain ⟨kind', entity', version', prev', label', source', target', validFrom', validTo', txFrom',
    txTo', current', tombstone', provenance', properties'⟩ := b
  simp only [versionCanonical] at h
  obtain ⟨hkind, h⟩ := splits_kind.split (a := kind) (b := kind') h
  obtain ⟨hentity, h⟩ := Canon.splits_uint64.split h
  obtain ⟨hversion, h⟩ := Canon.splits_uint64.split h
  obtain ⟨hprev, h⟩ := Canon.splits_uint64.opt_eq.split h
  obtain ⟨hlabel, h⟩ := Canon.splits_text.split h
  obtain ⟨hsource, h⟩ := Canon.splits_uint64.opt_eq.split h
  obtain ⟨htarget, h⟩ := Canon.splits_uint64.opt_eq.split h
  obtain ⟨hvalidFrom, h⟩ := Canon.splits_int64.opt_eq.split h
  obtain ⟨hvalidTo, h⟩ := Canon.splits_int64.opt_eq.split h
  obtain ⟨htxFrom, h⟩ := Canon.splits_int64.opt_eq.split h
  obtain ⟨htxTo, h⟩ := Canon.splits_int64.opt_eq.split h
  obtain ⟨hcurrent, h⟩ := Canon.splits_bool.split h
  obtain ⟨htombstone, h⟩ := Canon.splits_bool.split h
  obtain ⟨hprovenance, h⟩ := splits_provenance.opt_eq.split h
  refine ⟨?_, perm_of_counted h⟩
  rw [hkind, hentity, hversion, hprev, hlabel, hsource, htarget, hvalidFrom, hvalidTo, htxFrom, htxTo,
    hcurrent, htombstone, hprovenance]

/-! ### Domains -/

lemma getElem?_domain (x : List UInt8) :
    (chainTxDomain ++ x)[20]? = some 116 ∧ (chainNodeDomain ++ x)[20]? = some 110 ∧
      (chainGenesisDomain ++ x)[20]? = some 103 := by
  refine ⟨?_, ?_, ?_⟩
  all_goals rw [List.getElem?_append_left (by decide)]; decide

lemma stepInput_ne_genesisInput (prev txd : Digest) (lsn : UInt64) (ts : Int64) :
    stepInput prev txd ≠ genesisInput lsn ts := by
  intro h
  have hnode := (getElem?_domain (prev.toList ++ txd.toList)).2.1
  have hgenesis := (getElem?_domain (Canon.u64 lsn.toNat ++ Canon.i64 ts.toInt)).2.2
  rw [← stepInput, h, genesisInput, hgenesis] at hnode
  exact absurd hnode (by decide)

lemma splits_digest : Splits Eq fun d : Digest => d.toList :=
  splitsOn_of_width 32 (fun d _ => by simp) fun _ _ _ _ h => Vector.toList_inj.mp h

lemma stepInput_inj {prev prev' txd txd' : Digest} (h : stepInput prev txd = stepInput prev' txd') :
    prev = prev' ∧ txd = txd' := by
  have h := append_cancel_left h
  obtain ⟨hprev, htxd⟩ := splits_digest.split h
  exact ⟨hprev, Vector.toList_inj.mp htxd⟩

lemma txInput_inj {ts ts' : Int64} {logical logical' : UInt32} {leaves leaves' : List Digest}
    (h : txInput ts logical leaves = txInput ts' logical' leaves') :
    ts = ts' ∧ logical = logical' ∧ leaves = leaves' := by
  have h := append_cancel_left h
  obtain ⟨hts, h⟩ := Canon.splits_int64.split h
  obtain ⟨hlogical, h⟩ := Canon.splits_uint32.split h
  -- the number of leaves is also the number of bytes that follow
  obtain ⟨-, hbytes⟩ := append_inj h (by simp [Canon.u64])
  have hlength : leaves.length = leaves'.length := by
    have hsize := congrArg List.length hbytes
    simpa [length_flatMap] using hsize
  have hleaves := splits_digest.flatMap leaves leaves' hlength (fun _ _ => trivial)
    (fun _ _ => trivial) [] [] (by rw [hbytes])
  rw [forall₂_eq_eq_eq] at hleaves
  exact ⟨hts, hlogical, hleaves.1⟩

lemma txInput_injective : Function.Injective fun c : Int64 × UInt32 × List Digest =>
    txInput c.1 c.2.1 c.2.2 := by
  rintro ⟨ts, logical, leaves⟩ ⟨ts', logical', leaves'⟩ h
  obtain ⟨rfl, rfl, rfl⟩ := txInput_inj h
  rfl

/-! ### Folding -/

section Fold

variable (sha : List UInt8 → Digest)

/-- What a digest binds of a record. -/
def ChainTxRecord.content (r : ChainTxRecord) : Int64 × UInt32 × List Digest :=
  (r.commitTs, r.commitTsLogical, r.leaves)

/-- The digest of a chain that goes on from `prev`. -/
def foldDigest (prev : Digest) (records : List ChainTxRecord) : Digest :=
  records.foldl (fun digest r => r.foldedOn sha digest) prev

def chainInputs (prev : Digest) (records : List ChainTxRecord) : Set (List UInt8) :=
  { x | ∃ before r after, records = before ++ r :: after ∧
    (x = txInput r.commitTs r.commitTsLogical r.leaves ∨
      x = stepInput (foldDigest sha prev before)
        (txDigest sha r.commitTs r.commitTsLogical r.leaves)) }

/-- The chain is numbered from 1 and folded from the genesis, as sealing leaves it. -/
def Folded (genesis : ChainHead) (records : List ChainTxRecord) : Prop :=
  refoldFrom sha genesis.digest 1 records = records

variable {sha} {prev : Digest} {l m : List ChainTxRecord} {r : ChainTxRecord}

lemma chainInputs_append : chainInputs sha prev l ⊆ chainInputs sha prev (l ++ m) := by
  rintro x ⟨before, r, after, rfl, hx⟩
  exact ⟨before, r, after ++ m, by simp, hx⟩

lemma foldDigest_eq_digest : foldDigest sha prev l = HashChain.digest sha stepInput prev
    (l.map fun r => txDigest sha r.commitTs r.commitTsLogical r.leaves) := by
  rw [HashChain.digest, foldl_map]
  rfl

lemma inputs_subset_chainInputs : HashChain.inputs sha stepInput prev
    (l.map fun r => txDigest sha r.commitTs r.commitTsLogical r.leaves) ⊆ chainInputs sha prev l := by
  rintro x ⟨before, d, after, hlist, rfl⟩
  obtain ⟨lbefore, lrest, rfl, rfl, hrest⟩ := map_eq_append_iff.mp hlist
  obtain ⟨r, lafter, rfl, rfl, -⟩ := map_eq_cons_iff.mp hrest
  exact ⟨lbefore, r, lafter, rfl, .inr (by rw [foldDigest_eq_digest])⟩

lemma txInput_mem (hr : r ∈ l) :
    txInput r.commitTs r.commitTsLogical r.leaves ∈ chainInputs sha prev l := by
  obtain ⟨before, after, rfl⟩ := append_of_mem hr
  exact ⟨before, r, after, rfl, .inl rfl⟩

lemma content_eq_of_foldDigest {lsn : UInt64} {ts : Int64} (hprev : prev = genesisDigest sha lsn ts)
    (hinj : Set.InjOn sha (insert (genesisInput lsn ts)
      (chainInputs sha prev l ∪ chainInputs sha prev m)))
    (h : foldDigest sha prev l = foldDigest sha prev m) :
    l.map ChainTxRecord.content = m.map ChainTxRecord.content := by
  subst hprev
  rw [foldDigest_eq_digest, foldDigest_eq_digest] at h
  have hne := fun a b => stepInput_ne_genesisInput a b lsn ts
  have hsub : {genesisInput lsn ts, genesisInput lsn ts} ∪
      (HashChain.inputs sha stepInput (genesisDigest sha lsn ts)
          (l.map fun r => txDigest sha r.commitTs r.commitTsLogical r.leaves) ∪
        HashChain.inputs sha stepInput (genesisDigest sha lsn ts)
          (m.map fun r => txDigest sha r.commitTs r.commitTsLogical r.leaves)) ⊆
      insert (genesisInput lsn ts) (chainInputs sha (genesisDigest sha lsn ts) l ∪
        chainInputs sha (genesisDigest sha lsn ts) m) := by
    rw [Set.pair_eq_singleton, Set.singleton_union]
    exact Set.insert_subset_insert
      (Set.union_subset_union inputs_subset_chainInputs inputs_subset_chainInputs)
  obtain ⟨-, hlinks⟩ := HashChain.eq_of_digest_eq (fun _ _ _ _ => stepInput_inj) hne hne
    (hinj.mono hsub) h
  -- equal digests of the transactions come from equal inputs
  have hinputs := HashChain.map_eq_of_injOn hinj (fun r hr => .inr (.inl (txInput_mem hr)))
    (fun r hr => .inr (.inr (txInput_mem hr))) hlinks
  have hcontents := txInput_injective.list_map
  exact hcontents (by simpa [Function.comp_def, ChainTxRecord.content] using hinputs)

lemma getLast?_refoldFrom (seq : ℕ) (hne : l ≠ []) : ∃ last,
    (refoldFrom sha prev seq l).getLast? = some last ∧ last.digest = foldDigest sha prev l ∧
      last.seq + 1 = seq + l.length := by
  induction l generalizing prev seq with
  | nil => exact absurd rfl hne
  | cons r l ih =>
    rcases eq_or_ne l [] with rfl | hl
    · exact ⟨_, rfl, rfl, rfl⟩
    · obtain ⟨last, hlast, hdigest, hseq⟩ := ih (seq + 1) hl
      refine ⟨last, ?_, hdigest, by simp only [length_cons]; omega⟩
      simp [refoldFrom, List.getLast?_cons, hlast]

lemma headOf_folded (h : Folded sha genesis l) (hne : l ≠ []) :
    (headOf genesis l).seq = l.length ∧ (headOf genesis l).digest = foldDigest sha genesis.digest l ∧
      (headOf genesis l).genesisDigest = genesis.genesisDigest := by
  obtain ⟨last, hlast, hdigest, hseq⟩ := getLast?_refoldFrom 1 hne
  rw [h] at hlast
  simp only [headOf, hlast]
  exact ⟨by omega, hdigest, trivial⟩

lemma refoldToAnchor_ok {anchorSeq checked checked' : ℕ} {d : Digest}
    (h : refoldToAnchor sha anchorSeq prev checked l = .ok (some d, checked')) :
    ∃ k, d = foldDigest sha prev (l.take k) := by
  induction l generalizing prev checked with
  | nil => simp [refoldToAnchor] at h
  | cons r l ih =>
    simp only [refoldToAnchor] at h
    split at h
    next => cases h
    next hdigest =>
      split at h
      next =>
        simp only [Except.ok.injEq, Prod.mk.injEq, Option.some.injEq] at h
        exact ⟨1, by simp [foldDigest, h.1]⟩
      next =>
        obtain ⟨k, rfl⟩ := ih h
        refine ⟨k + 1, ?_⟩
        rw [not_not] at hdigest
        rw [← hdigest]
        rfl

lemma refoldToAnchor_error {anchorSeq checked : ℕ} {broken : ChainVerification}
    (h : refoldToAnchor sha anchorSeq prev checked l = .error broken) : broken.passed = false := by
  induction l generalizing prev checked with
  | nil => cases h
  | cons r l ih =>
    simp only [refoldToAnchor] at h
    split at h
    next => rw [← Except.error.inj h]; rfl
    next =>
      split at h
      next => cases h
      next => exact ih h

lemma verifyAgainstAnchor_passed {genesis anchor : ChainHead} (hseq : anchor.seq ≠ 0)
    (h : (verifyAgainstAnchor sha l genesis anchor).passed = true) :
    anchor.genesisDigest = genesis.genesisDigest ∧
      ∃ k, anchor.digest = foldDigest sha genesis.digest ((canonicalOrder l).take k) := by
  simp only [verifyAgainstAnchor] at h
  split at h
  next => cases h
  next hgenesis =>
    refine ⟨not_not.mp hgenesis, ?_⟩
    split at h
    next broken herror =>
      rw [refoldToAnchor_error herror] at h
      cases h
    next recomputed checked hok =>
      split at h
      next => cases h
      next d =>
        split at h
        next hd =>
          rw [← hd]
          exact refoldToAnchor_ok hok
        next => cases h

end Fold

/-! ### Leaves against the source -/

section Leaves

variable {sha : List UInt8 → Digest} {src : VersionSource} {prev d : Digest} {checked checked' : ℕ}
  {r : ChainTxRecord} {l : List ChainTxRecord} {broken : ChainVerification}

def LeafOf (sha : List UInt8 → Digest) (src : VersionSource) (ref : VersionRef) (leaf : Digest) : Prop :=
  ∃ input, src ref = some input ∧ leaf = versionLeaf sha input

lemma verifyRecord_ok (h : verifyRecord sha src prev checked r = .ok d) :
    List.Forall₂ (LeafOf sha src) r.entityRefs r.leaves ∧ r.foldedOn sha prev = r.digest ∧
      d = r.digest := by
  simp only [verifyRecord] at h
  obtain ⟨recomputed, hmap, h⟩ := except_bind_eq_ok.mp h
  split at h
  next => cases h
  next hleaves =>
    split at h
    next => cases h
    next hdigest =>
      rw [not_not] at hleaves hdigest
      rw [← hleaves, ChainTxRecord.foldedOn, ← hleaves]
      refine ⟨(forall₂_of_mapM_eq_ok hmap).imp fun ref leaf href => ?_, hdigest,
        (Except.ok.inj h).symm⟩
      split at href
      next input hinput => exact ⟨input, hinput, (Except.ok.inj href).symm⟩
      next => cases href

lemma verifyRecord_error (h : verifyRecord sha src prev checked r = .error broken) :
    broken.passed = false := by
  simp only [verifyRecord] at h
  rcases hmap : recomputeLeaves sha src prev checked r with e | recomputed
  · rw [hmap] at h
    obtain ⟨ref, -, href⟩ := mem_of_mapM_eq_error hmap
    split at href
    next => cases href
    next =>
      rw [← Except.error.inj h, ← Except.error.inj href]
      rfl
  · rw [hmap] at h
    simp only [bind, Except.bind] at h
    split at h
    next =>
      rw [← Except.error.inj h]
      rfl
    next =>
      split at h
      next =>
        rw [← Except.error.inj h]
        rfl
      next => cases h

lemma verifyRecords_ok (h : verifyRecords sha src prev checked l = .ok (d, checked')) :
    ∀ r ∈ l, List.Forall₂ (LeafOf sha src) r.entityRefs r.leaves := by
  induction l generalizing prev checked with
  | nil => simp
  | cons r l ih =>
    obtain ⟨digest, hr, hl⟩ := except_bind_eq_ok.mp h
    exact forall_mem_cons.mpr ⟨(verifyRecord_ok hr).1, ih hl⟩

lemma verifyRecords_error (h : verifyRecords sha src prev checked l = .error broken) :
    broken.passed = false := by
  induction l generalizing prev checked with
  | nil => cases h
  | cons r l ih =>
    simp only [verifyRecords] at h
    rcases hr : verifyRecord sha src prev checked r with e | digest
    · rw [hr] at h
      rw [← Except.error.inj h]
      exact verifyRecord_error hr
    · rw [hr] at h
      exact ih h

lemma verifyFull_passed (h : (verifyFull sha l src genesis).passed = true) :
    ∀ r ∈ l, List.Forall₂ (LeafOf sha src) r.entityRefs r.leaves := by
  simp only [verifyFull] at h
  split at h
  next broken herror =>
    rw [verifyRecords_error herror] at h
    cases h
  next digest checked hok =>
    intro r hr
    exact verifyRecords_ok hok r ((mergeSort_perm l _).mem_iff.mpr hr)

def leafInputs (src : VersionSource) (records : List ChainTxRecord) : Set (List UInt8) :=
  { x | ∃ r ∈ records, ∃ ref ∈ r.entityRefs, ∃ input, src ref = some input ∧ x = leafInput input }

def SealedOver (sha : List UInt8 → Digest) (src : VersionSource) (records : List ChainTxRecord) : Prop :=
  ∀ r ∈ records, List.Forall₂ (LeafOf sha src) r.entityRefs r.leaves

lemma sameContent_of_leaves {src' : VersionSource} {refs : List VersionRef} {leaves : List Digest}
    (h : List.Forall₂ (LeafOf sha src) refs leaves) (h' : List.Forall₂ (LeafOf sha src') refs leaves)
    {inputs : Set (List UInt8)} (hinj : Set.InjOn sha inputs)
    (hmem : ∀ ref ∈ refs, ∀ input, src ref = some input ∨ src' ref = some input →
      leafInput input ∈ inputs) :
    ∀ ref ∈ refs, ∃ input input', src ref = some input ∧ src' ref = some input' ∧
      input.SameContent input' := by
  induction h with
  | nil => simp
  | @cons ref leaf refs leaves href hrefs ih =>
    obtain ⟨href', hrefs'⟩ := forall₂_cons.mp h'
    obtain ⟨hhead, htail⟩ := forall_mem_cons.mp hmem
    refine forall_mem_cons.mpr ⟨?_, ih hrefs' htail⟩
    obtain ⟨input, hinput, rfl⟩ := href
    obtain ⟨input', hinput', hleaf⟩ := href'
    have heq := hinj (hhead input (.inl hinput)) (hhead input' (.inr hinput')) hleaf
    exact ⟨input, input', hinput, hinput', sameContent_of_versionCanonical (append_cancel_left heq)⟩

end Leaves

/-- **Tampering shows.** Records that verify against another source pin down its contents, and records
that verify against an anchor are those it was exported over. -/
theorem chain_tamper_evident (sha : List UInt8 → Digest) :
    (∀ (records : List ChainTxRecord) (src src' : VersionSource) (genesis : ChainHead),
      SealedOver sha src records → (verifyFull sha records src' genesis).passed = true →
      Set.InjOn sha (leafInputs src records ∪ leafInputs src' records) →
      ∀ r ∈ records, ∀ ref ∈ r.entityRefs, ∃ input input', src ref = some input ∧
        src' ref = some input' ∧ input.SameContent input') ∧
    (∀ (honest forged : List ChainTxRecord) (lsn : UInt64) (ts : Int64) (genesis : ChainHead),
      Folded sha (ChainHead.genesis sha lsn ts) honest → honest ≠ [] →
      genesis.digest = genesis.genesisDigest →
      (verifyAgainstAnchor sha forged genesis
        (headOf (ChainHead.genesis sha lsn ts) honest)).passed = true →
      Set.InjOn sha (insert (genesisInput lsn ts)
        (chainInputs sha (genesisDigest sha lsn ts) (canonicalOrder forged) ∪
          chainInputs sha (genesisDigest sha lsn ts) honest)) →
      ((canonicalOrder forged).take honest.length).map ChainTxRecord.content =
        honest.map ChainTxRecord.content) := by
  constructor
  · intro records src src' genesis hsealed hpassed hinj r hr
    refine sameContent_of_leaves (hsealed r hr) (verifyFull_passed hpassed r hr) hinj ?_
    rintro ref href input (hinput | hinput)
    · exact .inl ⟨r, hr, ref, href, input, hinput, rfl⟩
    · exact .inr ⟨r, hr, ref, href, input, hinput, rfl⟩
  · intro honest forged lsn ts genesis hfolded hne hgenesis hpassed hinj
    obtain ⟨hseq, hdigest, hroot⟩ := headOf_folded hfolded hne
    have hpos : (headOf (ChainHead.genesis sha lsn ts) honest).seq ≠ 0 := by
      rw [hseq]
      exact fun hzero => hne (length_eq_zero_iff.mp hzero)
    obtain ⟨hsame, k, hk⟩ := verifyAgainstAnchor_passed hpos hpassed
    -- the verifier folds from the digest that the anchor names as its genesis
    have hprev : genesis.digest = genesisDigest sha lsn ts := by
      rw [hgenesis, ← hsame, hroot]
      rfl
    rw [hdigest, hprev] at hk
    have hsub : chainInputs sha (genesisDigest sha lsn ts) ((canonicalOrder forged).take k) ⊆
        chainInputs sha (genesisDigest sha lsn ts) (canonicalOrder forged) := by
      conv_rhs => rw [← take_append_drop k (canonicalOrder forged)]
      exact chainInputs_append
    have hcontent := content_eq_of_foldDigest rfl
      (hinj.mono (Set.insert_subset_insert (Set.union_subset_union_left _ hsub))) hk.symm
    have hlength : ((canonicalOrder forged).take k).length = honest.length := by
      simpa using congrArg List.length hcontent
    have htake : (canonicalOrder forged).take honest.length = (canonicalOrder forged).take k := by
      rw [← hlength, length_take, ← take_take, take_length]
    rw [htake, hcontent]

/-! ### One record -/

/-- A stand-in for the hash function, apart on the four domains. -/
def domainHash (x : List UInt8) : Digest := Vector.replicate 32 (x.getD 20 0)

def namedNode : VersionHashInput :=
  ⟨.node, 1, 1, none, ⟨"P", by decide +kernel⟩, none, none, some 2, none, some 3, none, true, false,
    none, ⟨[(⟨"a", by decide +kernel⟩, ⟨.bool true, trivial⟩)], by simp⟩⟩

def namedNodeRecord (txId : UInt64) : ChainTxRecord :=
  let shell : ChainTxRecord := ⟨1, 3, 0, txId, 0, [Vector.replicate 32 108], [(.node, 1, 1)],
    Vector.replicate 32 0⟩
  { shell with digest := shell.foldedOn domainHash (genesisDigest domainHash 0 0) }

lemma domainHash_leafInput (input : VersionHashInput) :
    domainHash (leafInput input) = Vector.replicate 32 108 := by
  have hbyte : (leafInput input)[20]? = some 108 := by
    rw [leafInput, List.getElem?_append_left (by decide)]
    decide
  rw [domainHash, getD_eq_getElem?_getD, hbyte]
  rfl

lemma canonicalOrder_singleton (r : ChainTxRecord) : canonicalOrder [r] = [r] := by
  simp [canonicalOrder]

lemma chainInputs_namedNodeRecord (txId : UInt64) {x : List UInt8}
    (hx : x ∈ chainInputs domainHash (genesisDigest domainHash 0 0) [namedNodeRecord txId]) :
    x = txInput 3 0 [Vector.replicate 32 108] ∨ x = stepInput (genesisDigest domainHash 0 0)
      (txDigest domainHash 3 0 [Vector.replicate 32 108]) := by
  obtain ⟨before, r, after, hlist, hx⟩ := hx
  cases before with
  | nil =>
    cases hlist
    exact hx
  | cons _ before => simp at hlist

theorem chain_tamper_evident_one_record :
    (∃ input input', (fun _ => some namedNode : VersionSource) (.node, 1, 1) = some input ∧
        (fun _ => some namedNode : VersionSource) (.node, 1, 1) = some input' ∧
        input.SameContent input') ∧
      ((canonicalOrder [namedNodeRecord 8]).take 1).map ChainTxRecord.content =
        [namedNodeRecord 7].map ChainTxRecord.content := by
  constructor
  · refine (chain_tamper_evident domainHash).1 [namedNodeRecord 7] (fun _ => some namedNode)
      (fun _ => some namedNode) (ChainHead.genesis domainHash 0 0) ?_ (by decide +kernel) ?_
      (namedNodeRecord 7) (by simp) (.node, 1, 1) (by simp [namedNodeRecord])
    · intro r hr
      obtain rfl := mem_singleton.mp hr
      exact .cons ⟨_, rfl, (domainHash_leafInput _).symm⟩ .nil
    · have hone : ∀ x ∈ leafInputs (fun _ => some namedNode) [namedNodeRecord 7] ∪
          leafInputs (fun _ => some namedNode) [namedNodeRecord 7], x = leafInput namedNode := by
        rintro x (⟨r, -, ref, -, input, hinput, rfl⟩ | ⟨r, -, ref, -, input, hinput, rfl⟩)
        · rw [← Option.some.inj hinput]
        · rw [← Option.some.inj hinput]
      intro x hx y hy _
      rw [hone x hx, hone y hy]
  · refine (chain_tamper_evident domainHash).2 [namedNodeRecord 7] [namedNodeRecord 8] 0 0
      (ChainHead.genesis domainHash 0 0) rfl (by simp) rfl (by decide +kernel) ?_
    have hthree : ∀ x ∈ insert (genesisInput 0 0)
        (chainInputs domainHash (genesisDigest domainHash 0 0) (canonicalOrder [namedNodeRecord 8]) ∪
          chainInputs domainHash (genesisDigest domainHash 0 0) [namedNodeRecord 7]),
        x ∈ [genesisInput 0 0, txInput 3 0 [Vector.replicate 32 108],
          stepInput (genesisDigest domainHash 0 0)
            (txDigest domainHash 3 0 [Vector.replicate 32 108])] := by
      rw [canonicalOrder_singleton]
      rintro x (rfl | hx | hx)
      · simp
      · rcases chainInputs_namedNodeRecord 8 hx with rfl | rfl <;> simp
      · rcases chainInputs_namedNodeRecord 7 hx with rfl | rfl <;> simp
    have hinj : ∀ x ∈ [genesisInput 0 0, txInput 3 0 [Vector.replicate 32 108],
        stepInput (genesisDigest domainHash 0 0) (txDigest domainHash 3 0 [Vector.replicate 32 108])],
        ∀ y ∈ [genesisInput 0 0, txInput 3 0 [Vector.replicate 32 108],
          stepInput (genesisDigest domainHash 0 0)
            (txDigest domainHash 3 0 [Vector.replicate 32 108])],
          domainHash x = domainHash y → x = y := by decide +kernel
    exact fun x hx y hy => hinj x (hthree x hx) y (hthree y hy)

end Aletheia.Provenance
