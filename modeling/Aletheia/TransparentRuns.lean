import Aletheia.SealingTransparent

/-!
# What readers see of a database with designated subjects

Taking one layer off commutes with every call whose buffered map is plain, so every run of such
calls gives what the same calls give on a database that seals nothing.
-/

namespace Aletheia.CryptoShred

open List Machine PropertyStore

variable {β : Type}

/-! ### The state of the keyring -/

structure Live (mek : Mek) (c : CryptoShredState) : Prop where
  keyring : LiveKeyring mek c.keyring
  gates : c.hasActive → c.hasAny
  any : c.hasAny → c.keyring.entries ≠ []

/-- No key and no gate is lost. -/
structure Grows (c c' : CryptoShredState) : Prop where
  cells : ∀ s dek, cellOf c.keyring.entries s = .active dek →
    cellOf c'.keyring.entries s = .active dek
  any : c.hasAny → c'.hasAny

section Designate

open Exec

variable {mek : Mek} {c : CryptoShredState} {k k' : SubjectKeyring} {s : SubjectId}
  {targets : List DesignationTarget} {key : SubjectKey}

lemma insert_ne_nil {x : SubjectEntry} {es : List SubjectEntry} : insert x es ≠ [] := by
  cases es with
  | nil => simp [insert]
  | cons d es =>
    simp only [insert]
    split_ifs <;> simp

lemma LiveKeyring.designate (h : LiveKeyring mek k) (hk : k.designate s mek targets key = .ok k') :
    LiveKeyring mek k' ∧ k'.entries ≠ [] := by
  have hinsert : ∃ x, k'.entries = insert x k.entries ∧ ∃ w, x.state = .active ∧
      x.wrappedKey = some w ∧ w.wrapped.key = mek ∧
        w.wrapped.aad = (x.subjectId, w.keyVersion) := by
    unfold SubjectKeyring.designate at hk
    cases hget : k.get s with
    | none =>
      rw [hget] at hk
      cases hk
      exact ⟨_, rfl, _, rfl, rfl, rfl, rfl⟩
    | some existing =>
      rw [hget] at hk
      simp only at hk
      split_ifs at hk
      cases hk
      exact ⟨_, rfl, h.wraps existing (mem_of_lookup hget).1⟩
  obtain ⟨x, hes, hx⟩ := hinsert
  refine ⟨⟨(h.ok.designate hk).1, fun y hy => ?_⟩, hes ▸ insert_ne_nil⟩
  rw [hes] at hy
  rcases of_mem_insert hy with rfl | hy
  · exact hx
  · exact h.wraps y hy

/-- The states that a designation goes through. -/
def LiveWorld (mek : Mek) (c : CryptoShredState) (x : World) : Prop :=
  Live mek x.state ∧ Grows c x.state

lemma live_designate {w : Write} : Triple (LiveWorld mek c) (designate mek s targets key w)
    (fun _ => LiveWorld mek c) (LiveWorld mek c) := by
  have hupdate : Triple (LiveWorld mek c) (updateKeyring fun k => k.designate s mek targets key)
      (fun _ x => LiveWorld mek c x ∧ x.state.keyring.entries ≠ []) (LiveWorld mek c) := by
    refine triple_modifyKeyring ?_ fun x hx => hx
    rintro x k ⟨hlive, hgrows⟩ hk
    obtain ⟨hlive', hne⟩ := hlive.keyring.designate hk
    obtain ⟨-, habsent, hpresent⟩ := hlive.keyring.ok.designate hk
    refine ⟨⟨⟨hlive', hlive.gates, fun _ => hne⟩, fun u dek hu => ?_, hgrows.any⟩, hne⟩
    have hu := hgrows.cells u dek hu
    change cellOf k.entries u = _
    by_cases hs : cellOf x.state.keyring.entries s = .absent
    · have hus : u ≠ s := by
        rintro rfl
        rw [hs] at hu
        cases hu
      rw [habsent hs, Function.update_of_ne hus, hu]
    · rw [hpresent hs, hu]
  have hsave : Triple (fun x => LiveWorld mek c x ∧ x.state.keyring.entries ≠ []) (saveKeyring w)
      (fun _ x => LiveWorld mek c x ∧ x.state.keyring.entries ≠ []) (LiveWorld mek c) :=
    triple_writeDurable w (fun _ h => h) (fun _ h => h.1) fun _ h => h.1
  refine hupdate.bind fun _ => hsave.bind fun _ => triple_modify ?_
  rintro x ⟨⟨hlive, hgrows⟩, hne⟩
  have hany : x.refreshGates.state.hasAny = true := by
    simpa [World.refreshGates, CryptoShredState.refreshGates] using hne
  exact ⟨⟨hlive.keyring, fun _ => hany, fun _ => hne⟩, hgrows.cells, fun _ => hany⟩

end Designate

/-! ### Maps that a read opens -/

/-- Every envelope of the map opens, and the gate of the readers is up if there is one. -/
def Openable (c : CryptoShredState) (e : EntityId) (m : Properties β) : Prop :=
  Bound c.keyring.entries e m ∧ (c.hasAny = true ∨ Properties.AllPlain m)

section Openable

variable {c c' : CryptoShredState} {mek : Mek} {e : EntityId} {m : Properties β}

lemma Openable.mono (h : Openable c e m) (hgrows : Grows c c') : Openable c' e m := by
  refine ⟨fun p hp s version dek entity property inner hv => ?_, h.2.imp_left hgrows.any⟩
  obtain ⟨hcell, hbound⟩ := h.1 p hp s version dek entity property inner hv
  exact ⟨hgrows.cells s dek hcell, hbound⟩

lemma openable_of_allPlain (h : Properties.AllPlain m) : Openable c e m :=
  ⟨bound_of_allPlain h, .inr h⟩

lemma Openable.unsealValue (h : LiveKeyring mek c.keyring) (hm : Bound c.keyring.entries e m)
    {p : String × Value β} (hp : p ∈ m) : c.keyring.unsealValue mek e.id p.1 p.2 = p.2.opened := by
  obtain ⟨key, v⟩ := p
  cases v with
  | plain v => rfl
  | sealed s version dek entity property inner =>
    obtain ⟨hcell, rfl, rfl⟩ := hm _ hp s version dek entity property inner rfl
    obtain ⟨x, w, hl, hactive, -⟩ := lookup_of_active hcell
    obtain ⟨hx, rfl⟩ := mem_of_lookup hl
    obtain ⟨dek', k', hk, hcell', -⟩ := h.dekFromGuard hx
    obtain rfl : dek = dek' := Cell.active.inj (hcell.symm.trans hcell')
    have hget : c.keyring.get x.subjectId = some x := hl
    simp [SubjectKeyring.unsealValue, hget, hactive, hk, Value.opened]

/-- **A read takes off one layer.** -/
theorem Openable.materialize (h : Live mek c) (hm : Openable c e m) :
    c.materialize mek e.id m = Properties.opened m := by
  unfold CryptoShredState.materialize
  split_ifs with hany
  · exact map_congr_left fun p hp => by rw [Openable.unsealValue h.keyring hm.1 hp]
  · exact (Properties.opened_of_allPlain (hm.2.resolve_left hany)).symm

end Openable

/-! ### Requests that buffer plain maps -/

/-- The caller's values are plain, and so are the stored ones that an update or a removal keeps. -/
def PropertyRequest.KeepsPlain (st : PropertyStore β) (tx : WriteTx β) : PropertyRequest β → Prop
  | .create _ m | .replace _ m | .compareAndSet _ _ m => Properties.AllPlain m
  | .update e patch => Properties.AllPlain patch ∧
      ∀ m ∈ st.readOwn tx e, ∀ p ∈ m, p.1 ∉ patch.map Prod.fst → p.2.isPlain
  | .removeProperty e key => ∀ m ∈ st.readOwn tx e, ∀ p ∈ m, p.1 ≠ key → p.2.isPlain
  | .delete _ | .retract _ => True

instance (st : PropertyStore β) (tx : WriteTx β) (r : PropertyRequest β) :
    Decidable (r.KeepsPlain st tx) := by
  cases r <;> unfold PropertyRequest.KeepsPlain <;> infer_instance

namespace PropertyRequest

variable {st : PropertyStore β} {tx : WriteTx β} {r : PropertyRequest β} {w : PropertyWrite β}

lemma KeepsPlain.write (h : r.KeepsPlain st tx) (hw : r.write st tx = some w) :
    ∀ m ∈ w.properties?, Properties.AllPlain m := by
  intro m hm
  cases r with
  | create e m' =>
    simp only [PropertyRequest.write] at hw
    split_ifs at hw
    cases hw
    cases hm
    exact h
  | update e patch =>
    obtain ⟨own, hown, rfl⟩ := Option.map_eq_some_iff.mp hw
    cases hm
    intro p hp
    rcases Properties.mem_merge hp with hp | ⟨hp, hkey⟩
    · exact h.1 p hp
    · exact h.2 own hown p hp hkey
  | replace e m' | compareAndSet e expected m' =>
    obtain ⟨own, -, rfl⟩ := Option.map_eq_some_iff.mp hw
    cases hm
    exact h
  | removeProperty e key =>
    obtain ⟨own, hown, rfl⟩ := Option.map_eq_some_iff.mp hw
    cases hm
    intro p hp
    obtain ⟨hp, hkey⟩ := mem_filter.mp hp
    exact h own (Option.filter_eq_some_iff.mp hown).1 p hp (by simpa using hkey)
  | delete e | retract e =>
    obtain ⟨own, -, rfl⟩ := Option.map_eq_some_iff.mp hw
    cases hm

lemma KeepsPlain.write_opened (h : r.KeepsPlain st tx) :
    r.write st.opened tx.opened = (r.write st tx).map PropertyWrite.opened := by
  cases r with
  | create e m =>
    simp only [PropertyRequest.write, fresh_opened]
    split_ifs
    · simp only [Option.map_some, PropertyWrite.opened, PropertyWrite.properties?,
        PropertyWrite.setProperties, Properties.opened_of_allPlain h]
    · rfl
  | update e patch =>
    simp only [PropertyRequest.write, readOwn_opened, Option.map_map]
    congr 1
    funext m
    simp only [Function.comp, PropertyWrite.opened, PropertyWrite.properties?,
      PropertyWrite.setProperties, Properties.opened_merge h.1]
  | replace e m | compareAndSet e expected m =>
    simp only [PropertyRequest.write, readOwn_opened, Option.map_map]
    congr 1
    funext own
    simp only [Function.comp, PropertyWrite.opened, PropertyWrite.properties?,
      PropertyWrite.setProperties, Properties.opened_of_allPlain h]
  | removeProperty e key =>
    simp only [PropertyRequest.write, readOwn_opened]
    cases st.readOwn tx e with
    | none => rfl
    | some m =>
      simp only [Option.map_some, Option.filter_some, Properties.any_key_opened]
      split_ifs
      · simp only [Option.map_some, PropertyWrite.opened, PropertyWrite.properties?,
          PropertyWrite.setProperties, Properties.opened_remove]
      · rfl
  | delete e | retract e =>
    simp only [PropertyRequest.write, readOwn_opened, Option.map_map]
    rfl

end PropertyRequest

/-! ### The invariant -/

/-- How many writes of the buffer need no sealing any more. -/
def WriteTx.done (tx : WriteTx β) : ℕ :=
  match tx.phase with
  | .active => 0
  | .sealing n => n
  | .closed => tx.buffer.length

structure TxOpens (mek : Mek) (c : CryptoShredState) (tx : WriteTx β) : Prop where
  context : ∀ mek', tx.context = some mek' → mek' = mek ∧ c.hasAny
  maps : ∀ w ∈ tx.buffer, ∀ m ∈ w.properties?, Openable c w.entity m
  raw : ∀ w ∈ tx.buffer.drop tx.done, ∀ m ∈ w.properties?, Properties.AllPlain m

/-- The maps of an entity open. -/
def EntityState.Opens (es : EntityState β) (c : CryptoShredState) (e : EntityId) : Prop :=
  ∀ m ∈ es.current.toList ++ es.versions, Openable c e m

structure DbOpens (mek : Mek) (d : SealDb β) : Prop where
  live : Live mek d.world.state
  entities : ∀ e, (d.store.entities e).Opens d.world.state e
  txs : ∀ tx ∈ d.store.txs, TxOpens mek d.world.state tx

section Invariant

variable {mek : Mek} {c c' : CryptoShredState} {d d' : SealDb β} {tx : WriteTx β} {t : ℕ}
  {w : PropertyWrite β}

lemma TxOpens.mono (h : TxOpens mek c tx) (hgrows : Grows c c') : TxOpens mek c' tx where
  context mek' hc := ⟨(h.context mek' hc).1, hgrows.any (h.context mek' hc).2⟩
  maps w hw m hm := (h.maps w hw m hm).mono hgrows
  raw := h.raw

lemma TxOpens.close (h : TxOpens mek c tx) : TxOpens mek c { tx with phase := .closed } where
  context := h.context
  maps := h.maps
  raw w hw := by
    simp [WriteTx.done] at hw

lemma DbOpens.mono (h : DbOpens mek d) {world : World} (hlive : Live mek world.state)
    (hgrows : Grows d.world.state world.state) {designated : List DesignationTarget} :
    DbOpens mek (⟨world, designated, d.store, d.stored⟩ : SealDb β) where
  live := hlive
  entities e m hm := (h.entities e m hm).mono hgrows
  txs tx htx := (h.txs tx htx).mono hgrows

lemma DbOpens.putTx (h : DbOpens mek d) (htx : TxOpens mek d.world.state tx) :
    DbOpens mek (d.withStore (d.store.putTx t tx)) where
  live := h.live
  entities := h.entities
  txs tx' hmem := by
    rcases mem_or_eq_of_mem_set hmem with hmem | rfl
    · exact h.txs tx' hmem
    · exact htx

lemma DbOpens.call (h : DbOpens mek d) {s : SubjectId} {targets : List DesignationTarget}
    {key : SubjectKey} {w : Write} (hd : d.call (designate mek s targets key w) targets = some d') :
    DbOpens mek d' ∧ d'.store = d.store := by
  have hstart : LiveWorld mek d.world.state d.world := ⟨h.live, fun _ _ hu => hu, fun hany => hany⟩
  unfold SealDb.call at hd
  split at hd
  next world hrun =>
    cases hd
    obtain ⟨hlive, hgrows⟩ := live_designate.of_ok hstart hrun
    exact ⟨h.mono hlive hgrows, rfl⟩
  next world hrun =>
    cases hd
    obtain ⟨hlive, hgrows⟩ := live_designate.of_error hstart hrun
    exact ⟨h.mono hlive hgrows, rfl⟩
  next => cases hd

/-! ### Sealing a write -/

lemma sealWrite_total {k₀ : SubjectKeyring} {context : Option Mek}
    (hc : ∀ mek', context = some mek' → mek' = mek)
    (hw : ∀ m ∈ w.properties?, Properties.AllPlain m) :
    Exec.Triple (LiveFrom mek k₀) (SealDb.sealWrite context w)
      (fun w' k => LiveFrom mek k₀ k ∧ w'.opened = w.opened ∧ w'.entity = w.entity ∧
        ∀ m ∈ w'.properties?,
          Bound k₀.entries w.entity m ∧ (context = none → Properties.AllPlain m))
      (fun _ => False) := by
  have hkeep : Exec.Triple (LiveFrom mek k₀) (pure w : KeyringTask (PropertyWrite β))
      (fun w' k => LiveFrom mek k₀ k ∧ w'.opened = w.opened ∧ w'.entity = w.entity ∧
        ∀ m ∈ w'.properties?,
          Bound k₀.entries w.entity m ∧ (context = none → Properties.AllPlain m))
      (fun _ => False) :=
    Exec.triple_pure fun k hk =>
      ⟨hk, rfl, rfl, fun m hm => ⟨bound_of_allPlain (hw m hm), fun _ => hw m hm⟩⟩
  cases context with
  | none => exact hkeep
  | some mek' =>
    obtain rfl := hc mek' rfl
    cases w with
    | delete e | retract e => exact hkeep
    | create e m | update e m expected =>
      have hm := hw m rfl
      refine (sealMap_total hm).bind fun m' => Exec.triple_pure ?_
      rintro k ⟨hk, hopened, hbound⟩
      refine ⟨hk, ?_, rfl, fun m'' hm'' => ?_⟩
      · simp only [PropertyWrite.opened, PropertyWrite.properties?, PropertyWrite.setProperties,
          hopened, Properties.opened_of_allPlain hm]
      · cases hm''
        exact ⟨hbound, fun hnone => by cases hnone⟩

lemma DbOpens.sealStep (h : DbOpens mek d) {n : ℕ} (htx : tx ∈ d.store.txs)
    (hphase : tx.phase = .sealing n) (hw : tx.buffer[n]? = some w) :
    DbOpens mek (d.sealStep t tx n w) ∧ (d.sealStep t tx n w).store.opened =
      d.store.opened.setPhase t tx.opened (.sealing (n + 1)) := by
  obtain ⟨hlt, hget⟩ := List.getElem?_eq_some_iff.mp hw
  have htxo := h.txs tx htx
  have hdrop : tx.buffer.drop n = w :: tx.buffer.drop (n + 1) := by
    rw [drop_eq_getElem_cons hlt, hget]
  have hraw : ∀ u ∈ w :: tx.buffer.drop (n + 1), ∀ m ∈ u.properties?, Properties.AllPlain m := by
    rw [← hdrop]
    simpa only [WriteTx.done, hphase] using htxo.raw
  obtain ⟨hplain, hrest⟩ := forall_mem_cons.mp hraw
  have hspec : Exec.Triple (LiveFrom mek d.keyring) (SealDb.sealWrite tx.context w) _ _ :=
    sealWrite_total (fun mek' hc => (htxo.context mek' hc).1) hplain
  have hstart : LiveFrom mek d.keyring d.keyring := ⟨h.live.keyring, rfl, rfl⟩
  unfold SealDb.sealStep
  cases hrun : (SealDb.sealWrite tx.context w).run d.keyring with
  | error err k => exact (hspec.of_error hstart hrun).elim
  | ok w' k =>
    obtain ⟨⟨hlive, hsame⟩, hopened, hentity, hmaps⟩ := hspec.of_ok hstart hrun
    have hlive' : Live mek (d.world.setKeyring k).state := by
      refine ⟨hlive, h.live.gates, fun hany => ?_⟩
      rw [show (d.world.setKeyring k).state.keyring.entries = d.keyring.entries from hsame.1]
      exact h.live.any hany
    have hgrows : Grows d.world.state (d.world.setKeyring k).state := by
      refine ⟨fun s dek hcell => ?_, fun hany => hany⟩
      rw [show (d.world.setKeyring k).state.keyring.entries = d.keyring.entries from hsame.1]
      exact hcell
    refine ⟨(h.mono hlive' hgrows).putTx ⟨?_, ?_, ?_⟩, ?_⟩
    · exact htxo.context
    · intro u hu m hm
      rcases mem_or_eq_of_mem_set hu with hu | rfl
      · exact (htxo.maps u hu m hm).mono hgrows
      · rw [hentity]
        obtain ⟨hbound, hnone⟩ := hmaps m hm
        refine Openable.mono ⟨hbound, ?_⟩ hgrows
        cases hc : tx.context with
        | none => exact .inr (hnone hc)
        | some mek' => exact .inl (htxo.context mek' hc).2
    · simp only [WriteTx.done, drop_set_of_lt (Nat.lt_succ_self n)]
      exact hrest
    · have hset : (tx.buffer.map PropertyWrite.opened).set n w.opened =
          tx.buffer.map PropertyWrite.opened := by
        rw [← map_set, ← hget, set_getElem_self]
      rw [putTx_opened]
      simp only [setPhase, WriteTx.opened, map_set, hopened, hset]

/-! ### Storing -/

lemma EntityState.Opens.apply {es : EntityState β} {e : EntityId} {choice : Choice}
    (h : es.Opens c e) (hw : ∀ m ∈ w.properties?, Openable c e m) :
    (es.apply w choice).state.Opens c e :=
  EntityState.forall_apply h hw

lemma opens_applyAll {st : PropertyStore β} {ws : List (PropertyWrite β × Choice)}
    (h : ∀ e, (st.entities e).Opens c e)
    (hws : ∀ wc ∈ ws, ∀ m ∈ wc.1.properties?, Openable c wc.1.entity m) :
    ∀ e, ((st.applyAll ws).entities e).Opens c e := by
  induction ws generalizing st with
  | nil => exact h
  | cons wc ws ih =>
    obtain ⟨hw, hws⟩ := forall_mem_cons.mp hws
    refine ih (fun e => ?_) hws
    by_cases he : e = wc.1.entity
    · subst he
      simp only [applyWrite, Function.update_self]
      exact (h _).apply hw
    · simp only [applyWrite, Function.update_of_ne he]
      exact h e

lemma DbOpens.apply (h : DbOpens mek d) {choices : List Choice} (hd : d.apply t choices = some d') :
    DbOpens mek d' ∧ d.store.opened.apply t choices = some d'.store.opened := by
  obtain ⟨tx, htx, hd⟩ := Option.bind_eq_some_iff.mp hd
  obtain ⟨st, hst, rfl⟩ := Option.map_eq_some_iff.mp hd
  obtain ⟨hst', htxs⟩ := of_apply htx hst
  have hmem : tx ∈ d.store.txs := mem_of_getElem? (Option.filter_eq_some_iff.mp htx).1
  have hclosed : DbOpens mek (d.withStore (d.store.setPhase t tx .closed)) :=
    h.putTx (h.txs tx hmem).close
  refine ⟨⟨h.live, fun e => ?_, fun tx' htx' => ?_⟩, ?_⟩
  · change (st.entities e).Opens _ e
    rw [hst']
    split_ifs
    · refine opens_applyAll hclosed.entities (fun wc hwc => ?_) e
      exact (h.txs tx hmem).maps wc.1 (of_mem_zip hwc).1
    · exact hclosed.entities e
  · have htx' : tx' ∈ st.txs := htx'
    rw [htxs] at htx'
    exact hclosed.txs tx' htx'
  · rw [apply_opened, hst]
    rfl

end Invariant

/-! ### Runs -/

namespace SealDb

variable {mek : Mek} {d d' : SealDb β}

/-- Nobody is erased, and every request buffers a plain map. -/
def Transparent (d : SealDb β) : SealAction β → Prop
  | .erase _ _ _ => False
  | .request t r => ∀ tx ∈ d.store.txs[t]?, r.KeepsPlain d.store tx
  | _ => True

instance (d : SealDb β) : (a : SealAction β) → Decidable (d.Transparent a)
  | .erase _ _ _ => .isFalse id
  | .request t r => inferInstanceAs (Decidable (∀ tx ∈ d.store.txs[t]?, r.KeepsPlain d.store tx))
  | .designate _ _ _ _ | .begin | .commit _ | .sealNext _ | .apply _ _ | .rollback _ => .isTrue trivial

/-- `get_node` and `get_edge`. -/
def get (d : SealDb β) (mek : Mek) (e : EntityId) : Option (Properties β) :=
  (d.store.entities e).current.map (d.world.state.materialize mek e.id)

/-- The version that a read at a point in time finds. -/
def getVersion (d : SealDb β) (mek : Mek) (e : EntityId) (i : ℕ) : Option (Properties β) :=
  ((d.store.entities e).versions[i]?).map (d.world.state.materialize mek e.id)

/-- Readers see what they would see in `st`. -/
def ReadsAs (mek : Mek) (d : SealDb β) (st : PropertyStore β) : Prop :=
  ∀ e, d.get mek e = (st.entities e).current ∧
    ∀ i, d.getVersion mek e i = (st.entities e).versions[i]?

lemma readsAs_opened (h : DbOpens mek d) : d.ReadsAs mek d.store.opened := by
  have hread : ∀ e, ∀ m ∈ (d.store.entities e).current.toList ++ (d.store.entities e).versions,
      d.world.state.materialize mek e.id m = Properties.opened m :=
    fun e m hm => (h.entities e m hm).materialize h.live
  intro e
  constructor
  · simp only [get, entities_opened, EntityState.opened]
    cases hc : (d.store.entities e).current with
    | none => rfl
    | some m => exact congrArg some (hread e m (by simp [hc]))
  · intro i
    simp only [getVersion, entities_opened, EntityState.opened, List.getElem?_map]
    cases hv : (d.store.entities e).versions[i]? with
    | none => rfl
    | some m =>
      exact congrArg some (hread e m (mem_append_right _ (mem_of_getElem? hv)))

lemma opens_request (h : DbOpens mek d) {t : ℕ} {r : PropertyRequest β} {st : PropertyStore β}
    (hplain : ∀ tx ∈ d.store.txs[t]?, r.KeepsPlain d.store tx)
    (hst : d.store.request t r = some st) :
    DbOpens mek (d.withStore st) ∧ d.store.opened.request t r = some st.opened := by
  obtain ⟨tx, htx, rfl⟩ := Option.map_eq_some_iff.mp hst
  obtain ⟨hget, hphase⟩ := Option.filter_eq_some_iff.mp htx
  have hkeeps := hplain tx hget
  have htxo := h.txs tx (mem_of_getElem? hget)
  have hactive : tx.phase = .active := by simpa using hphase
  simp only [request, inPhase_opened, htx, Option.map_some, hkeeps.write_opened]
  cases hw : r.write d.store tx with
  | none => exact ⟨h, rfl⟩
  | some w =>
    have hwplain := hkeeps.write hw
    refine ⟨h.putTx ⟨htxo.context, ?_, ?_⟩, ?_⟩
    · intro u hu m hm
      rcases mem_append.mp hu with hu | hu
      · exact htxo.maps u hu m hm
      · rw [mem_singleton.mp hu] at hm
        exact openable_of_allPlain (hwplain m hm)
    · intro u hu m hm
      simp only [WriteTx.done, hactive, drop_zero] at hu
      rcases mem_append.mp hu with hu | hu
      · refine htxo.raw u ?_ m hm
        simpa only [WriteTx.done, hactive, drop_zero] using hu
      · rw [mem_singleton.mp hu] at hm
        exact hwplain m hm
    · simp only [Option.map_some, putTx_opened, WriteTx.opened, map_append, map_cons, map_nil]

/-- **One step**, on both databases. -/
theorem opens_step (a : SealAction β) (h : DbOpens mek d) (ht : d.Transparent a)
    (hd : d.step mek a = some d') :
    DbOpens mek d' ∧ d.store.opened.plainStep a = some d'.store.opened := by
  cases a with
  | designate s targets key w =>
    obtain ⟨hopens, hstore⟩ := h.call hd
    exact ⟨hopens, by rw [hstore]; rfl⟩
  | erase => exact ht.elim
  | begin =>
    cases hd
    refine ⟨⟨h.live, h.entities, fun tx htx => ?_⟩, ?_⟩
    · rcases mem_append.mp htx with htx | htx
      · exact h.txs tx htx
      · rw [mem_singleton.mp htx]
        refine ⟨fun mek' hc => ?_, fun w hw => (nomatch hw), fun w hw => nomatch hw⟩
        simp only [sealingContext] at hc
        split_ifs at hc with hactive
        exact ⟨(Option.some.inj hc).symm, h.live.gates hactive⟩
    · simp [plainStep, begin, opened, withStore, WriteTx.opened]
  | request t r =>
    obtain ⟨st, hst, rfl⟩ := Option.map_eq_some_iff.mp hd
    exact opens_request h ht hst
  | commit t =>
    obtain ⟨tx, htx, rfl⟩ := Option.map_eq_some_iff.mp hd
    obtain ⟨hget, hphase⟩ := Option.filter_eq_some_iff.mp htx
    have htxo := h.txs tx (mem_of_getElem? hget)
    have hactive : tx.phase = .active := by simpa using hphase
    refine ⟨h.putTx ⟨htxo.context, htxo.maps, fun w hw => htxo.raw w ?_⟩, ?_⟩
    · simpa only [WriteTx.done, hactive] using hw
    · simp only [plainStep, inPhase_opened, htx, Option.map_some, withStore, setPhase_opened]
  | sealNext t =>
    obtain ⟨tx, htx, hd⟩ := Option.bind_eq_some_iff.mp hd
    split at hd
    next n hphase =>
      obtain ⟨w, hw, rfl⟩ := Option.map_eq_some_iff.mp hd
      obtain ⟨hopens, hstore⟩ := h.sealStep (t := t) (mem_of_getElem? htx) hphase hw
      refine ⟨hopens, ?_⟩
      rw [hstore]
      simp [plainStep, htx, hphase, hw]
    next => cases hd
  | apply t choices => exact h.apply hd
  | rollback t =>
    obtain ⟨st, hst, rfl⟩ := Option.map_eq_some_iff.mp hd
    refine ⟨?_, by rw [plainStep, rollback_opened, hst]; rfl⟩
    obtain ⟨tx, htx, hst⟩ := Option.bind_eq_some_iff.mp hst
    split_ifs at hst
    cases hst
    exact h.putTx (h.txs tx (mem_of_getElem? htx)).close

lemma opens_init : DbOpens mek (init : SealDb β) where
  live :=
    ⟨⟨⟨⟨fun _ he => (nomatch he), nodup_nil⟩, fun _ _ hc => nomatch hc⟩,
      fun _ he => nomatch he⟩, fun hactive => (nomatch hactive), fun hany => nomatch hany⟩
  entities _ _ hm := nomatch hm
  txs _ htx := nomatch htx

/-- **Sealing is not seen**: in every run without erasures in which every request buffers a plain
map, `get_node`, `get_edge` and the reads at a point in time return what they return after the same
calls on a database that seals nothing. -/
theorem readsAs_run (as : List (SealAction β))
    (htransparent : Machine.Along (step mek) Transparent init as)
    (hrun : Machine.run (step mek) init as = some d) :
    ∃ st, Machine.run PropertyStore.plainStep .empty as = some st ∧ d.ReadsAs mek st := by
  obtain ⟨hopens, hplain⟩ := simulation_run (f := fun d : SealDb β => d.store.opened)
    (fun d a d' h ht hd => opens_step a h ht hd) opens_init htransparent hrun
  exact ⟨d.store.opened, hplain, readsAs_opened hopens⟩

section Runs

def designatedNode : List (SealAction String) :=
  [SealAction.designate "alice" [.wholeNode 0] 7 .done, .begin,
    .request 0 (.create ⟨true, 0⟩ [("name", .plain "Alice"), ("age", .plain "41")])] ++ commitOne 0

def patched : List (SealAction String) :=
  designatedNode ++ [SealAction.begin, .request 1 (.update ⟨true, 0⟩ [("age", .plain "42")])] ++ commitOne 1

def propertyRemoved : List (SealAction String) :=
  designatedNode ++ [SealAction.begin, .request 1 (.removeProperty ⟨true, 0⟩ "age")] ++ commitOne 1

/-- The envelope of the node's name, written to an edge that has the id of the node. -/
def envelopeCopied : List (SealAction String) :=
  designatedNode ++ [SealAction.begin, .request 1
    (.create ⟨false, 0⟩ [("name", .sealed "alice" 1 7 0 "name" (.plain "Alice"))])] ++ commitOne 1

/-- After the run the entity reads differently on the two databases. -/
def readsDiffer (as : List (SealAction String)) (e : EntityId) : Bool :=
  match Machine.run (step 1) init as, Machine.run PropertyStore.plainStep .empty as with
  | some d, some st => d.get 1 e ≠ (st.entities e).current
  | _, _ => false

lemma of_readsDiffer {as : List (SealAction String)} {e : EntityId} (h : readsDiffer as e) :
    ∃ d st, run (step 1) init as = some d ∧
      run plainStep .empty as = some st ∧ ¬ d.ReadsAs 1 st := by
  unfold readsDiffer at h
  split at h
  next d st hd hst => exact ⟨d, st, hd, hst, fun hreads => of_decide_eq_true h (hreads e).1⟩
  next => cases h

/-- An update and a removal seal the values they keep a second time; an envelope that a caller
writes is opened. -/
theorem readsAs_violated :
    (∃ d st, Machine.run (step 1) init patched = some d ∧
        Machine.run PropertyStore.plainStep .empty patched = some st ∧ ¬ d.ReadsAs 1 st) ∧
      (∃ d st, Machine.run (step 1) init propertyRemoved = some d ∧
        Machine.run PropertyStore.plainStep .empty propertyRemoved = some st ∧
          ¬ d.ReadsAs 1 st) ∧
      ∃ d st, Machine.run (step 1) init envelopeCopied = some d ∧
        Machine.run PropertyStore.plainStep .empty envelopeCopied = some st ∧
          ¬ d.ReadsAs 1 st := by
  have hpatched : readsDiffer patched ⟨true, 0⟩ := by decide +kernel
  have hremoved : readsDiffer propertyRemoved ⟨true, 0⟩ := by decide +kernel
  have hcopied : readsDiffer envelopeCopied ⟨false, 0⟩ := by decide +kernel
  exact ⟨of_readsDiffer hpatched, of_readsDiffer hremoved, of_readsDiffer hcopied⟩

/-- A node is replaced, compared and set, patched in all its properties and retracted. -/
def replacedLife : List (SealAction String) :=
  designatedNode ++
    [SealAction.begin, .request 1 (.replace ⟨true, 0⟩ [("name", .plain "A."), ("age", .plain "42")])] ++
    commitOne 1 ++
    [SealAction.begin,
      .request 2 (.compareAndSet ⟨true, 0⟩ 2 [("name", .plain "B."), ("age", .plain "43")])] ++
    commitOne 2 ++
    [SealAction.begin, .request 3 (.update ⟨true, 0⟩ [("name", .plain "C."), ("age", .plain "44")])] ++
    commitOne 3 ++ [SealAction.begin, .request 4 (.retract ⟨true, 0⟩)] ++ commitOne 4

theorem readsAs_run_replacedLife :
    ∃ d, Machine.run (step 1) init replacedLife = some d ∧
      ∃ st, Machine.run PropertyStore.plainStep .empty replacedLife = some st ∧
        d.ReadsAs 1 st := by
  have htransparent : Machine.Along (step 1) Transparent init replacedLife := by decide +kernel
  have hrun : (run (step 1) init replacedLife).isSome := by decide +kernel
  obtain ⟨d, hd⟩ := Option.isSome_iff_exists.mp hrun
  exact ⟨d, hd, readsAs_run replacedLife htransparent hd⟩

end Runs

end SealDb

end Aletheia.CryptoShred
