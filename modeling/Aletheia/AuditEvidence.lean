import Aletheia.AuditExport
import Aletheia.Exec
import Aletheia.HashChain

/-!
# Only the signed export verifies

If SHA-256 has no collision among the inputs compared, an artifact whose root is that of an honest
export carries the same metadata and the same versions, up to what the canonical encoding does not tell
apart.
-/

namespace Aletheia.Audit

open ByteCode Exec List

variable {e f : ExportedEntity}

/-! ### What the encoding does not tell apart -/

section Same

variable (parse : String → Option (BitVec 64))

/-- The texts are the same hexadecimal text up to case, or the same text. -/
def SameBytes (s t : Text) : Prop :=
  hexDecode (utf8 s.1) = hexDecode (utf8 t.1) ∧ (hexDecode (utf8 s.1) = none → s = t)

/-- The tokens denote the same float; a token that is no float counts as NaN. -/
def SameToken (s t : Text) : Prop :=
  tokenBits parse s.1 = tokenBits parse t.1 ∧
    (isNan (tokenBits parse s.1) = false →
      ∃ bits, tokenToF64 parse s.1 = some bits ∧ tokenToF64 parse t.1 = some bits)

mutual

def ExportedValue.Same : ExportedValue → ExportedValue → Prop
  | .null, .null => True
  | .bool a, .bool b => a = b
  | .int a, .int b => a = b
  | .float a, .float b => a = b
  | .string a, .string b => a = b
  | .bytes a, .bytes b => SameBytes a b
  | .array xs, .array ys => ExportedValue.sameAll xs ys
  | .vector xs, .vector ys => List.Forall₂ (SameToken parse) xs.1 ys.1
  | .sparseVector dim indices xs, .sparseVector dim' indices' ys =>
    dim = dim' ∧ indices = indices' ∧ List.Forall₂ (SameToken parse) xs.1 ys.1
  | _, _ => False

def ExportedValue.sameAll : List ExportedValue → List ExportedValue → Prop
  | [], [] => True
  | x :: xs, y :: ys => x.Same y ∧ sameAll xs ys
  | _, _ => False

end

structure ExportedProperty.Same (p q : ExportedProperty) : Prop where
  key : p.key = q.key
  redacted : p.redacted = q.redacted
  value : Option.Rel (fun v w => ExportedValue.Same parse v.1 w.1) p.value q.value

/-- The same properties in the same order for each key. -/
def SameProperties (l m : List ExportedProperty) : Prop :=
  ∀ key, List.Forall₂ (ExportedProperty.Same parse) (l.filter (·.key == key)) (m.filter (·.key == key))

structure ExportedVersion.Same (v w : ExportedVersion) : Prop where
  fields : { v with properties := w.properties } = w
  properties : SameProperties parse v.properties.1 w.properties.1

structure ExportedEntity.Same (e f : ExportedEntity) : Prop where
  header : { e with versions := f.versions } = f
  versions : List.Forall₂ (ExportedVersion.Same parse) e.versions f.versions

structure ExportMetadata.Same (m n : ExportMetadata) : Prop where
  fields : { m with redactedKeys := n.redactedKeys } = n
  redactedKeys : m.redactedKeys.1.Perm n.redactedKeys.1

end Same

/-! ### Splitting -/

section Splitting

open Aletheia.Canon

variable {parse : String → Option (BitVec 64)}

lemma splits_text : Splits Eq Canon.text := Aletheia.Canon.splits_text

lemma splits_uint32 : Splits Eq Canon.uint32 := Aletheia.Canon.splits_uint32

lemma splits_uint64 : Splits Eq Canon.uint64 := Aletheia.Canon.splits_uint64

lemma splits_int64 : Splits Eq Canon.int64 := Aletheia.Canon.splits_int64

lemma length_hexDecode : ∀ {l b : List UInt8}, hexDecode l = some b → b.length ≤ l.length
  | [], b, h => by
    cases h
    simp
  | [_], b, h => by cases h
  | hi :: lo :: rest, b, h => by
    simp only [hexDecode] at h
    split at h
    next _ _ bytes _ _ hrest =>
      have ih := length_hexDecode hrest
      cases h
      simp only [length_cons]
      omega
    next => cases h

lemma splits_hexBytes : Splits SameBytes Canon.hexBytes := by
  intro s t _ _ x y h
  simp only [Canon.hexBytes] at h
  split at h
  next b hs =>
    split at h
    next c ht =>
      obtain ⟨rfl, hrest⟩ := splitsOn_bytes _ _ ((length_hexDecode hs).trans_lt s.2)
        ((length_hexDecode ht).trans_lt t.2) _ _ (List.cons.inj h).2
      exact ⟨⟨hs.trans ht.symm, by simp [hs]⟩, hrest⟩
    next => exact absurd (List.cons.inj h).1 (by decide)
  next hs =>
    split at h
    next => exact absurd (List.cons.inj h).1 (by decide)
    next ht =>
      obtain ⟨rfl, hrest⟩ := splits_text.split (List.cons.inj h).2
      exact ⟨⟨rfl, fun _ => rfl⟩, hrest⟩

lemma sameToken_of_bits {s t : Text} (h : tokenBits parse s.1 = tokenBits parse t.1) :
    SameToken parse s t := by
  refine ⟨h, fun hnan => ?_⟩
  have hsome : ∀ u : Text, tokenBits parse u.1 = tokenBits parse s.1 →
      tokenToF64 parse u.1 = some (tokenBits parse s.1) := by
    intro u hu
    rcases hparse : tokenToF64 parse u.1 with _ | bits
    · rw [← hu, tokenBits, hparse] at hnan
      exact absurd hnan (by decide)
    · rw [← hu, tokenBits, hparse]
      rfl
  exact ⟨_, hsome s rfl, hsome t h.symm⟩

lemma splits_token : Splits (SameToken parse) (Canon.token parse) :=
  splits_f64bits.comap (fun _ _ => trivial) fun _ _ _ _ h => sameToken_of_bits h

-- structural over the first value; a different constructor has a different tag
mutual

theorem value_split : ∀ (v w : ExportedValue), v.Sized → w.Sized →
    ∀ x y, Canon.value parse v ++ x = Canon.value parse w ++ y → v.Same parse w ∧ x = y
  | .null, w, _, _, x, y, h => by
    cases w with
    | null => exact ⟨trivial, (List.cons.inj h).2⟩
    | _ => cases h
  | .bool b, w, _, _, x, y, h => by
    cases w with
    | bool c => exact splits_bool.split (List.cons.inj h).2
    | _ => cases h
  | .int i, w, hv, hw, x, y, h => by
    cases w with
    | int j => exact splits_int64.split (List.cons.inj h).2
    | _ => cases h
  | .float f, w, _, _, x, y, h => by
    cases w with
    | float g => exact splits_f64bits.split (List.cons.inj h).2
    | _ => cases h
  | .string s, w, hv, hw, x, y, h => by
    cases w with
    | string t => exact splits_text.split (List.cons.inj h).2
    | _ => cases h
  | .bytes b, w, hv, hw, x, y, h => by
    cases w with
    | bytes c => exact splits_hexBytes.split (List.cons.inj h).2
    | _ => cases h
  | .array xs, w, hv, hw, x, y, h => by
    cases w with
    | array ys =>
      have h : u64 xs.length ++ Canon.values parse xs ++ x =
        u64 ys.length ++ Canon.values parse ys ++ y := (List.cons.inj h).2
      rw [append_assoc, append_assoc] at h
      obtain ⟨hlength, h⟩ := splitsOn_u64 _ _ hv.1 hw.1 _ _ h
      exact values_split xs ys hlength hv.2 hw.2 x y h
    | _ => cases h
  | .vector xs, w, hv, hw, x, y, h => by
    cases w with
    | vector ys => exact splits_token.counted _ _ ⟨xs.2, by simp⟩ ⟨ys.2, by simp⟩ _ _ (List.cons.inj h).2
    | _ => cases h
  | .sparseVector dim indices xs, w, hv, hw, x, y, h => by
    cases w with
    | sparseVector dim' indices' ys =>
      have h : Canon.uint64 dim ++ (counted Canon.uint32 indices.1 ++ counted (Canon.token parse) xs.1) ++
          x = Canon.uint64 dim' ++ (counted Canon.uint32 indices'.1 ++
            counted (Canon.token parse) ys.1) ++ y := (List.cons.inj h).2
      rw [append_assoc, append_assoc, append_assoc, append_assoc] at h
      obtain ⟨hdim, h⟩ := splits_uint64.split h
      obtain ⟨hindices, h⟩ := splits_uint32.counted _ _ ⟨indices.2, by simp⟩ ⟨indices'.2, by simp⟩ _ _ h
      obtain ⟨hxs, hrest⟩ := splits_token.counted _ _ ⟨xs.2, by simp⟩ ⟨ys.2, by simp⟩ _ _ h
      rw [forall₂_eq_eq_eq] at hindices
      exact ⟨⟨hdim, Subtype.ext hindices, hxs⟩, hrest⟩
    | _ => cases h

theorem values_split : ∀ (xs ys : List ExportedValue), xs.length = ys.length →
    ExportedValue.allSized xs → ExportedValue.allSized ys →
    ∀ x y, Canon.values parse xs ++ x = Canon.values parse ys ++ y →
      ExportedValue.sameAll parse xs ys ∧ x = y
  | [], [], _, _, _, _, _, h => ⟨trivial, h⟩
  | v :: xs, w :: ys, hlength, hxs, hys, x, y, h => by
    simp only [Canon.values, append_assoc] at h
    obtain ⟨hhead, htail⟩ := value_split v w hxs.1 hys.1 _ _ h
    obtain ⟨hrest, hxy⟩ := values_split xs ys (by simpa using hlength) hxs.2 hys.2 x y htail
    exact ⟨⟨hhead, hrest⟩, hxy⟩

end

lemma splits_sizedValue : Splits (fun v w => ExportedValue.Same parse v.1 w.1)
    fun v : { v : ExportedValue // v.Sized } => Canon.value parse v.1 :=
  fun v w _ _ => value_split v.1 w.1 v.2 w.2

lemma splits_provenance : Splits Eq Canon.provenance := by
  rintro ⟨source, confidence, note, correlationId, principal⟩
    ⟨source', confidence', note', correlationId', principal'⟩ - - x y h
  simp only [Canon.provenance, append_assoc] at h
  obtain ⟨hsource, h⟩ := splits_text.opt_eq.split h
  obtain ⟨hconfidence, h⟩ := splits_f64bits.opt_eq.split h
  obtain ⟨hnote, h⟩ := splits_text.opt_eq.split h
  obtain ⟨hcorrelationId, h⟩ := splits_text.opt_eq.split h
  obtain ⟨hprincipal, h⟩ := splits_text.opt_eq.split h
  exact ⟨by rw [hsource, hconfidence, hnote, hcorrelationId, hprincipal], h⟩

lemma splits_property : Splits (ExportedProperty.Same parse) (Canon.property parse) := by
  intro p q _ _ x y h
  simp only [Canon.property, append_assoc] at h
  obtain ⟨hkey, h⟩ := splits_text.split h
  obtain ⟨hredacted, h⟩ := splits_bool.split h
  obtain ⟨hvalue, h⟩ := splits_sizedValue.opt.split h
  exact ⟨⟨hkey, hredacted, hvalue⟩, h⟩

lemma splits_entityId : Splits Eq Canon.entityId := by
  rintro ⟨kind, id⟩ ⟨kind', id'⟩ - - x y h
  simp only [Canon.entityId, append_assoc] at h
  obtain ⟨hkind, h⟩ := splits_text.split h
  obtain ⟨hid, h⟩ := splits_uint64.split h
  exact ⟨by rw [hkind, hid], h⟩

lemma splits_notIncluded : Splits Eq Canon.notIncluded := by
  rintro ⟨kind, id, reason⟩ ⟨kind', id', reason'⟩ - - x y h
  simp only [Canon.notIncluded, append_assoc] at h
  obtain ⟨hkind, h⟩ := splits_text.split h
  obtain ⟨hid, h⟩ := splits_uint64.split h
  obtain ⟨hreason, h⟩ := splits_text.split h
  exact ⟨by rw [hkind, hid, hreason], h⟩

lemma splits_coordinate : Splits Eq Canon.coordinate := by
  rintro ⟨validTime, transactionTime⟩ ⟨validTime', transactionTime'⟩ - - x y h
  simp only [Canon.coordinate, append_assoc] at h
  obtain ⟨hvalid, h⟩ := splits_text.opt_eq.split h
  obtain ⟨htransaction, h⟩ := splits_text.opt_eq.split h
  exact ⟨by rw [hvalid, htransaction], h⟩

lemma splits_vec {α : Type} {enc : α → List UInt8} (henc : Splits Eq enc) :
    Splits Eq fun l : Vec α => counted enc l.1 := by
  intro l m _ _ x y h
  obtain ⟨hlist, hrest⟩ := henc.counted l.1 m.1 ⟨l.2, by simp⟩ ⟨m.2, by simp⟩ _ _ h
  rw [forall₂_eq_eq_eq] at hlist
  exact ⟨Subtype.ext hlist, hrest⟩

/-! ### Sorted properties -/

lemma filter_mergeSort {α : Type} {le : α → α → Bool}
    (htrans : ∀ a b c, le a b = true → le b c = true → le a c = true)
    (htotal : ∀ a b, (le a b || le b a) = true) {p : α → Bool}
    (hp : ∀ a b, p a = true → p b = true → le a b = true) (l : List α) :
    (l.mergeSort le).filter p = l.filter p := by
  have hpairwise : (l.filter p).Pairwise fun a b => le a b = true :=
    pairwise_iff_forall_sublist.mpr fun {a b} hab => by
      have ha := (mem_filter.mp (hab.mem (by simp : a ∈ [a, b]))).2
      have hb := (mem_filter.mp (hab.mem (by simp : b ∈ [a, b]))).2
      exact hp a b ha hb
  have hsub := sublist_mergeSort htrans htotal hpairwise filter_sublist
  have hfilter := hsub.filter p
  rw [filter_filter] at hfilter
  simp only [Bool.and_self] at hfilter
  have hlength := ((mergeSort_perm l le).filter p).length_eq
  exact (hfilter.eq_of_length hlength.symm).symm

lemma filter_sortedProperties (key : Text) (l : List ExportedProperty) :
    (Canon.sortedProperties l).filter (·.key == key) = l.filter (·.key == key) := by
  refine filter_mergeSort (fun a b c hab hbc => ?_) (fun a b => ?_) (fun a b ha hb => ?_) l
  · simp only [decide_eq_true_eq] at hab hbc ⊢
    exact hab.trans hbc
  · simp only [Bool.or_eq_true, decide_eq_true_eq]
    exact le_total _ _
  · simp only [beq_iff_eq] at ha hb
    simp [ha, hb]

lemma forall₂_filter {l m : List ExportedProperty} (key : Text)
    (h : List.Forall₂ (ExportedProperty.Same parse) l m) :
    List.Forall₂ (ExportedProperty.Same parse) (l.filter (·.key == key)) (m.filter (·.key == key)) := by
  induction h with
  | nil => exact .nil
  | @cons p q l m hpq _ ih =>
    simp only [filter_cons, hpq.key]
    split
    · exact .cons hpq ih
    · exact ih

lemma sameProperties_of_counted {l m : Vec ExportedProperty}
    (h : counted (Canon.property parse) (Canon.sortedProperties l.1) =
      counted (Canon.property parse) (Canon.sortedProperties m.1)) :
    SameProperties parse l.1 m.1 := by
  have hl : (Canon.sortedProperties l.1).length = l.1.length := length_mergeSort _
  have hm : (Canon.sortedProperties m.1).length = m.1.length := length_mergeSort _
  have hsplit := splits_property.counted (Canon.sortedProperties l.1) (Canon.sortedProperties m.1)
    ⟨by rw [hl]; exact l.2, by simp⟩ ⟨by rw [hm]; exact m.2, by simp⟩ [] [] (by rw [h])
  intro key
  have hkey := forall₂_filter key hsplit.1
  rwa [filter_sortedProperties, filter_sortedProperties] at hkey

lemma splits_sortedKeys : Splits (fun l m : Vec Text => l.1.Perm m.1)
    fun l : Vec Text => counted Canon.text (Canon.sortedKeys l.1) := by
  intro l m _ _ x y h
  have hl : (Canon.sortedKeys l.1).Perm l.1 := mergeSort_perm _ _
  have hm : (Canon.sortedKeys m.1).Perm m.1 := mergeSort_perm _ _
  obtain ⟨hkeys, hrest⟩ := splits_text.counted (Canon.sortedKeys l.1) (Canon.sortedKeys m.1)
    ⟨by rw [hl.length_eq]; exact l.2, by simp⟩ ⟨by rw [hm.length_eq]; exact m.2, by simp⟩ _ _ h
  rw [forall₂_eq_eq_eq] at hkeys
  exact ⟨hl.symm.trans (hkeys ▸ hm), hrest⟩

/-! ### Versions, headers and metadata -/

lemma same_of_versionCanonical {kind kind' : Text} {id id' : UInt64} {v w : ExportedVersion}
    (h : versionCanonical parse kind id v = versionCanonical parse kind' id' w) : v.Same parse w := by
  obtain ⟨number, version, label, validFrom, validFromLogical, validTo, validToLogical, txFrom,
    txFromLogical, txTo, txToLogical, current, provenance, properties⟩ := v
  obtain ⟨number', version', label', validFrom', validFromLogical', validTo', validToLogical', txFrom',
    txFromLogical', txTo', txToLogical', current', provenance', properties'⟩ := w
  simp only [versionCanonical] at h
  obtain ⟨-, h⟩ := splits_text.split h
  obtain ⟨-, h⟩ := splits_uint64.split h
  obtain ⟨hnumber, h⟩ := splits_uint64.split h
  obtain ⟨hversion, h⟩ := splits_uint64.split h
  obtain ⟨hlabel, h⟩ := splits_text.split h
  obtain ⟨hvalidFrom, h⟩ := splits_int64.split h
  obtain ⟨hvalidFromLogical, h⟩ := splits_uint32.split h
  obtain ⟨hvalidTo, h⟩ := splits_int64.opt_eq.split h
  obtain ⟨hvalidToLogical, h⟩ := splits_uint32.opt_eq.split h
  obtain ⟨htxFrom, h⟩ := splits_int64.split h
  obtain ⟨htxFromLogical, h⟩ := splits_uint32.split h
  obtain ⟨htxTo, h⟩ := splits_int64.opt_eq.split h
  obtain ⟨htxToLogical, h⟩ := splits_uint32.opt_eq.split h
  obtain ⟨hcurrent, h⟩ := splits_bool.split h
  obtain ⟨hprovenance, h⟩ := splits_provenance.opt_eq.split h
  refine ⟨?_, sameProperties_of_counted h⟩
  rw [hnumber, hversion, hlabel, hvalidFrom, hvalidFromLogical, hvalidTo, hvalidToLogical, htxFrom,
    htxFromLogical, htxTo, htxToLogical, hcurrent, hprovenance]

lemma header_of_entityHeaderCanonical (h : entityHeaderCanonical e = entityHeaderCanonical f) :
    { e with versions := f.versions } = f := by
  obtain ⟨kind, id, label, source, target, versions⟩ := e
  obtain ⟨kind', id', label', source', target', versions'⟩ := f
  simp only [entityHeaderCanonical] at h
  obtain ⟨hkind, h⟩ := splits_text.split h
  obtain ⟨hid, h⟩ := splits_uint64.split h
  obtain ⟨hlabel, h⟩ := splits_text.opt_eq.split h
  obtain ⟨hsource, h⟩ := splits_uint64.opt_eq.split h
  have htarget := splits_uint64.opt_eq.rel h
  rw [hkind, hid, hlabel, hsource, htarget]

lemma same_of_metadataCanonical {m n : ExportMetadata}
    (h : metadataCanonical m = metadataCanonical n) : m.Same n := by
  obtain ⟨database, exported, tool, description, ⟨kind, requested, included, notIncluded, coordinate,
    hops⟩, ⟨lsn, anchor⟩, redacted, entities, versions, hash, signature⟩ := m
  obtain ⟨database', exported', tool', description', ⟨kind', requested', included', notIncluded',
    coordinate', hops'⟩, ⟨lsn', anchor'⟩, redacted', entities', versions', hash', signature'⟩ := n
  simp only [metadataCanonical] at h
  obtain ⟨hdatabase, h⟩ := splits_text.split h
  obtain ⟨hexported, h⟩ := splits_text.split h
  obtain ⟨htool, h⟩ := splits_text.split h
  obtain ⟨hdescription, h⟩ := splits_text.split h
  obtain ⟨hkind, h⟩ := splits_text.split h
  obtain ⟨hrequested, h⟩ := (splits_vec splits_entityId).split h
  obtain ⟨hincluded, h⟩ := (splits_vec splits_entityId).split h
  obtain ⟨hnotIncluded, h⟩ := (splits_vec splits_notIncluded).split h
  obtain ⟨hcoordinate, h⟩ := splits_coordinate.opt_eq.split h
  obtain ⟨hhops, h⟩ := splits_uint32.opt_eq.split h
  obtain ⟨hlsn, h⟩ := splits_uint64.split h
  obtain ⟨hanchor, h⟩ := splits_text.split h
  obtain ⟨hredacted, h⟩ := splits_sortedKeys.split h
  obtain ⟨hentities, h⟩ := splits_uint64.split h
  obtain ⟨hversions, h⟩ := splits_uint64.split h
  obtain ⟨hhash, h⟩ := splits_text.split h
  have hsignature := splits_text.rel h
  refine ⟨?_, hredacted⟩
  rw [hdatabase, hexported, htool, hdescription, hkind, hrequested, hincluded, hnotIncluded,
    hcoordinate, hhops, hlsn, hanchor, hentities, hversions, hhash, hsignature]

end Splitting

/-! ### The fold -/

/-- What is folded onto the metadata, one after another. -/
inductive Item where
  | header (e : ExportedEntity)
  | leaf (e : ExportedEntity) (v : ExportedVersion)

def ExportedEntity.items (e : ExportedEntity) : List Item := .header e :: e.versions.map (.leaf e)

def items (entities : List ExportedEntity) : List Item := entities.flatMap ExportedEntity.items

section Fold

variable (parse : String → Option (BitVec 64)) (sha : List UInt8 → Digest)
  {es fs : List ExportedEntity} {scheme : SignatureScheme}

def rootInput (m : ExportMetadata) : List UInt8 := rootDomain ++ metadataCanonical m

def Item.input : Item → List UInt8
  | .header e => headerDomain ++ entityHeaderCanonical e
  | .leaf e v => leafDomain ++ versionCanonical parse e.kind e.id v

def foldInput (acc next : Digest) : List UInt8 := acc.toList ++ next.toList

def links (entities : List ExportedEntity) : List Digest :=
  (items entities).map fun i => sha (i.input parse)

def exportInputs (x : AuditExport) : Set (List UInt8) :=
  { i | i = rootInput x.metadata ∨ (∃ item ∈ items x.entities, i = item.input parse) ∨
    i ∈ HashChain.inputs sha foldInput (sha (rootInput x.metadata)) (links parse sha x.entities) }

variable {parse sha}

lemma chainEntity_root (s : List Digest × Digest) (e : ExportedEntity) :
    (chainEntity parse sha s e).2 =
      HashChain.digest sha foldInput s.2 (e.items.map fun i => sha (i.input parse)) := by
  have hversions : ∀ (vs : List ExportedVersion) (s : List Digest × Digest),
      (vs.foldl (fun s v => (s.1 ++ [versionLeaf parse sha e v],
        fold sha s.2 (versionLeaf parse sha e v))) s).2 =
      HashChain.digest sha foldInput s.2 (vs.map fun v => sha ((Item.leaf e v).input parse)) := by
    intro vs
    induction vs with
    | nil => intro s; rfl
    | cons v vs ih => intro s; exact ih _
  simp only [chainEntity, ExportedEntity.items, map_cons, map_map]
  exact hversions e.versions _

lemma computeChain_root (m : ExportMetadata) (entities : List ExportedEntity) :
    (computeChain parse sha m entities).2 =
      HashChain.digest sha foldInput (sha (rootInput m)) (links parse sha entities) := by
  have hentities : ∀ (es : List ExportedEntity) (s : List Digest × Digest),
      (es.foldl (chainEntity parse sha) s).2 = HashChain.digest sha foldInput s.2 (links parse sha es) := by
    intro es
    induction es with
    | nil => intro s; rfl
    | cons e es ih =>
      intro s
      rw [foldl_cons, ih, chainEntity_root]
      simp [HashChain.digest, links, items]
  exact hentities entities _

lemma foldInput_inj {a b c d : Digest} (h : foldInput a b = foldInput c d) : a = c ∧ b = d := by
  obtain ⟨hac, hbd⟩ := append_inj h (by simp)
  exact ⟨Vector.toList_inj.mp hac, Vector.toList_inj.mp hbd⟩

/-- A root input is longer than two digests: five of its fields have a length of eight bytes. -/
lemma foldInput_ne_rootInput (a b : Digest) (m : ExportMetadata) : foldInput a b ≠ rootInput m := by
  intro h
  have hlength := congrArg List.length h
  have hdomain : rootDomain.length = 25 := by decide
  have htext : ∀ s : Text, 8 ≤ (Canon.text s).length := by
    intro s
    simp only [Canon.text, Aletheia.Canon.str, Aletheia.Canon.bytes, Aletheia.Canon.u64,
      length_append, length_be]
    omega
  have h1 := htext m.databaseId
  have h2 := htext m.exportedAt
  have h3 := htext m.toolVersion
  have h4 := htext m.scopeDescription
  have h5 := htext m.scope.kind
  simp only [foldInput, rootInput, metadataCanonical, length_append, Vector.length_toList,
    hdomain] at hlength
  omega

/-! ### Reading the entities off the items -/

lemma header_input_ne_leaf_input (e f : ExportedEntity) (v : ExportedVersion) :
    (Item.header e).input parse ≠ (Item.leaf f v).input parse := by
  intro h
  have hheader : (headerDomain ++ entityHeaderCanonical e)[20]? = some 104 := by
    rw [List.getElem?_append_left (by decide)]
    decide
  have hleaf : (leafDomain ++ versionCanonical parse f.kind f.id v)[20]? = some 108 := by
    rw [List.getElem?_append_left (by decide)]
    decide
  simp only [Item.input] at h
  rw [h, hleaf] at hheader
  exact absurd hheader (by decide)

lemma input_cons (e : ExportedEntity) (es : List ExportedEntity) :
    (items (e :: es)).map (Item.input parse) = (Item.header e).input parse ::
      (e.versions.map (fun v => (Item.leaf e v).input parse) ++ (items es).map (Item.input parse)) := by
  simp [items, ExportedEntity.items]

/-- The leaves of an entity end where the next header begins. -/
lemma versions_of_inputs {vs ws : List ExportedVersion}
    (h : vs.map (fun v => (Item.leaf e v).input parse) ++ (items es).map (Item.input parse) =
      ws.map (fun v => (Item.leaf f v).input parse) ++ (items fs).map (Item.input parse)) :
    List.Forall₂ (ExportedVersion.Same parse) vs ws ∧
      (items es).map (Item.input parse) = (items fs).map (Item.input parse) := by
  induction vs generalizing ws with
  | nil =>
    cases ws with
    | nil => exact ⟨.nil, h⟩
    | cons w ws =>
      cases es with
      | nil => exact absurd h (by simp [items])
      | cons e' es =>
        rw [input_cons] at h
        exact absurd (List.cons.inj h).1 (header_input_ne_leaf_input _ _ _)
  | cons v vs ih =>
    cases ws with
    | nil =>
      cases fs with
      | nil => exact absurd h (by simp [items])
      | cons f' fs =>
        rw [input_cons f'] at h
        exact absurd (List.cons.inj h).1.symm (header_input_ne_leaf_input _ _ _)
    | cons w ws =>
      obtain ⟨hleaf, hrest⟩ := List.cons.inj h
      obtain ⟨hversions, hitems⟩ := ih hrest
      have hsame := same_of_versionCanonical (append_cancel_left hleaf)
      exact ⟨.cons hsame hversions, hitems⟩

lemma same_of_inputs (h : (items es).map (Item.input parse) = (items fs).map (Item.input parse)) :
    List.Forall₂ (ExportedEntity.Same parse) es fs := by
  induction es generalizing fs with
  | nil =>
    cases fs with
    | nil => exact .nil
    | cons f fs => rw [input_cons] at h; cases h
  | cons e es ih =>
    cases fs with
    | nil => rw [input_cons] at h; cases h
    | cons f fs =>
      rw [input_cons, input_cons] at h
      obtain ⟨hheader, hrest⟩ := List.cons.inj h
      obtain ⟨hversions, hitems⟩ := versions_of_inputs hrest
      have hfields := header_of_entityHeaderCanonical (append_cancel_left hheader)
      exact .cons ⟨hfields, hversions⟩ (ih hitems)

lemma same_of_root_eq {x y : AuditExport}
    (hinj : Set.InjOn sha (exportInputs parse sha x ∪ exportInputs parse sha y))
    (h : (computeChain parse sha x.metadata x.entities).2 =
      (computeChain parse sha y.metadata y.entities).2) :
    x.metadata.Same y.metadata ∧ List.Forall₂ (ExportedEntity.Same parse) x.entities y.entities := by
  rw [computeChain_root, computeChain_root] at h
  have hsub : {rootInput x.metadata, rootInput y.metadata} ∪
      (HashChain.inputs sha foldInput (sha (rootInput x.metadata)) (links parse sha x.entities) ∪
        HashChain.inputs sha foldInput (sha (rootInput y.metadata)) (links parse sha y.entities)) ⊆
      exportInputs parse sha x ∪ exportInputs parse sha y := by
    rintro i ((rfl | rfl) | hi | hi)
    · exact .inl (.inl rfl)
    · exact .inr (.inl rfl)
    · exact .inl (.inr (.inr hi))
    · exact .inr (.inr (.inr hi))
  obtain ⟨hroot, hlinks⟩ := HashChain.eq_of_digest_eq (fun _ _ _ _ => foldInput_inj)
    (fun a b => foldInput_ne_rootInput a b x.metadata) (fun a b => foldInput_ne_rootInput a b y.metadata)
    (hinj.mono hsub) h
  have hinputs := HashChain.map_eq_of_injOn hinj (fun i hi => .inl (.inr (.inl ⟨i, hi, rfl⟩)))
    (fun i hi => .inr (.inr (.inl ⟨i, hi, rfl⟩))) hlinks
  exact ⟨same_of_metadataCanonical (append_cancel_left hroot), same_of_inputs hinputs⟩

/-! ### Verification -/

lemma verifyingKey_ok {x : AuditExport} {key used : scheme.Key} {trusted : Bool}
    (h : x.verifyingKey scheme (some key) = .ok (used, trusted)) : used = key := by
  obtain ⟨embedded, -, hkey⟩ := except_bind_eq_ok.mp h
  simp only at hkey
  split at hkey
  · cases hkey
  · exact (Prod.mk.inj (Except.ok.inj hkey)).1.symm

lemma verify_ok {x : AuditExport} {key : scheme.Key} {result : AuditVerification}
    (h : x.verify parse sha scheme (some key) = .ok result) :
    ∃ signature, scheme.verify key (computeChain parse sha x.metadata x.entities).2 signature = .ok () := by
  obtain ⟨-, -, hlabels⟩ := except_bind_eq_ok.mp h
  obtain ⟨-, -, hcontent⟩ := except_bind_eq_ok.mp hlabels
  obtain ⟨⟨used, trusted⟩, hkey, hused⟩ := except_bind_eq_ok.mp hcontent
  obtain ⟨signature, -, hdecoded⟩ := except_bind_eq_ok.mp hused
  obtain ⟨accepted, hverify, -⟩ := except_bind_eq_ok.mp hdecoded
  rw [verifyingKey_ok hkey] at hverify
  exact ⟨signature, except_mapError_eq_ok.mp hverify⟩

end Fold

/-- **Only the signed export verifies.** Of a key that has signed only the root of an honest export,
an artifact that passes carries the metadata and the versions of that export. -/
theorem export_tamper_evident (parse : String → Option (BitVec 64)) (sha : List UInt8 → Digest)
    (scheme : SignatureScheme) (key : scheme.Key) (honest forged : AuditExport)
    (result : AuditVerification)
    (hsigned : ∀ root signature, scheme.verify key root signature = .ok () →
      root = (computeChain parse sha honest.metadata honest.entities).2)
    (hinj : Set.InjOn sha (exportInputs parse sha honest ∪ exportInputs parse sha forged))
    (hpassed : forged.verify parse sha scheme (some key) = .ok result) :
    honest.metadata.Same forged.metadata ∧
      List.Forall₂ (ExportedEntity.Same parse) honest.entities forged.entities := by
  obtain ⟨signature, hsignature⟩ := verify_ok hpassed
  exact same_of_root_eq hinj (hsigned _ signature hsignature).symm

/-! ### One version -/

/-- A stand-in for the hash function, apart on the inputs of the export below. -/
def lengthHash (x : List UInt8) : Digest := Vector.replicate 32 (x.getD 20 0 + .ofNat x.length)

def oneRootScheme (root : Digest) : SignatureScheme where
  Key := Unit
  fromBytes _ := .ok ()
  asBytes _ := List.replicate 32 0
  verify _ r _ := if r = root then .ok () else .error "signature error"

def emptyText : Text := ⟨"", by decide +kernel⟩

/-- A version with one property of bytes, spelled `hex`. -/
def bytesVersion (hex : Text) : ExportedVersion :=
  ⟨1, 1, emptyText, 1, 0, none, none, 1, 0, none, none, true, none,
    ⟨[⟨emptyText, some ⟨.bytes hex, trivial⟩, false⟩], by simp⟩⟩

def bytesExport (hex : Text) : AuditExport :=
  let metadata : ExportMetadata := ⟨emptyText, emptyText, emptyText, emptyText,
    ⟨emptyText, ⟨[], Nat.succ_pos _⟩, ⟨[], Nat.succ_pos _⟩, ⟨[], Nat.succ_pos _⟩, none, none⟩,
    ⟨0, emptyText⟩, ⟨[], Nat.succ_pos _⟩, 1, 1, emptyText, emptyText⟩
  let entities : List ExportedEntity := [⟨emptyText, 1, none, none, none, [bytesVersion hex]⟩]
  let chain := computeChain (fun _ => none) lengthHash metadata entities
  ⟨2, metadata, entities,
    ⟨hashAlgorithm, chain.1.map fun d => hexEncode d.toList, hexEncode chain.2.toList⟩,
    ⟨signatureAlgorithm, hexEncode (List.replicate 32 0), hexEncode (List.replicate 64 0),
      signedDescription⟩⟩

def bytesRoot (hex : Text) : Digest :=
  (computeChain (fun _ => none) lengthHash (bytesExport hex).metadata (bytesExport hex).entities).2

def upperHex : Text := ⟨"AB", by decide +kernel⟩

def lowerHex : Text := ⟨"ab", by decide +kernel⟩

def bytesInputs (hex : Text) : List (List UInt8) :=
  let x := bytesExport hex
  let root := rootInput x.metadata
  let inputs := (items x.entities).map (Item.input fun _ => none)
  let links := inputs.map lengthHash
  root :: inputs ++ [foldInput (lengthHash root) (links.getD 0 default),
    foldInput (lengthHash (foldInput (lengthHash root) (links.getD 0 default))) (links.getD 1 default)]

lemma exportInputs_bytesExport (hex : Text) :
    exportInputs (fun _ => none) lengthHash (bytesExport hex) ⊆ { i | i ∈ bytesInputs hex } := by
  rintro i (rfl | ⟨item, hitem, rfl⟩ | ⟨before, d, after, hlinks, rfl⟩)
  · exact mem_cons_self
  · refine mem_cons_of_mem _ (mem_append_left _ (mem_map_of_mem hitem))
  · refine mem_cons_of_mem _ (mem_append_right _ ?_)
    -- there are two links
    match before, hlinks with
    | [], hlinks =>
      rw [← (List.cons.inj hlinks).1]
      exact mem_cons_self
    | [_], hlinks =>
      obtain ⟨hfirst, hrest⟩ := List.cons.inj hlinks
      rw [← hfirst, ← (List.cons.inj hrest).1]
      exact mem_cons_of_mem _ mem_cons_self
    | _ :: _ :: _, hlinks => simp [links, items, ExportedEntity.items, bytesExport, bytesVersion] at hlinks

lemma injOn_bytesInputs : Set.InjOn lengthHash
    { i | i ∈ bytesInputs upperHex ∨ i ∈ bytesInputs lowerHex } := by
  have hpairs : ∀ a ∈ bytesInputs upperHex ++ bytesInputs lowerHex,
      ∀ b ∈ bytesInputs upperHex ++ bytesInputs lowerHex, lengthHash a = lengthHash b → a = b := by
    decide +kernel
  intro a ha b hb hab
  exact hpairs a (mem_append.mpr ha) b (mem_append.mpr hb) hab

theorem export_tamper_evident_recased :
    (bytesExport upperHex).metadata.Same (bytesExport lowerHex).metadata ∧
      List.Forall₂ (ExportedEntity.Same fun _ => none) (bytesExport upperHex).entities
        (bytesExport lowerHex).entities := by
  have hpassed : ((bytesExport lowerHex).verify (fun _ => none) lengthHash
      (oneRootScheme (bytesRoot upperHex)) (some ())).toBool = true := by decide +kernel
  rcases hverify : (bytesExport lowerHex).verify (fun _ => none) lengthHash
      (oneRootScheme (bytesRoot upperHex)) (some ()) with e | result
  · rw [hverify] at hpassed
    cases hpassed
  refine export_tamper_evident (fun _ => none) lengthHash (oneRootScheme (bytesRoot upperHex)) ()
    (bytesExport upperHex) (bytesExport lowerHex) result (fun root signature hroot => ?_) ?_ hverify
  · simp only [oneRootScheme] at hroot
    split at hroot
    next h => exact h
    next => cases hroot
  · refine injOn_bytesInputs.mono ?_
    rintro i (hi | hi)
    · exact .inl (exportInputs_bytesExport upperHex hi)
    · exact .inr (exportInputs_bytesExport lowerHex hi)

end Aletheia.Audit
