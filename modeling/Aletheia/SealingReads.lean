import Aletheia.SealedStorage

/-!
# Reading through the envelopes

With one layer of every envelope taken off, a database with designated subjects is the database
that the same calls give without any sealing. A read takes off one layer, so nothing of the sealing
is seen as long as no value is sealed twice: an update merges into the stored map and the whole map
is sealed again.
-/

namespace Aletheia.CryptoShred

open Function List PropertyStore

variable {β : Type}

/-! ### One layer less -/

namespace Value

def isPlain : Value β → Bool
  | .plain _ => true
  | .sealed _ _ _ _ _ _ => false

def opened : Value β → Value β
  | .plain v => .plain v
  | .sealed _ _ _ _ _ inner => inner

lemma opened_of_isPlain {v : Value β} (h : v.isPlain) : v.opened = v := by
  cases v with
  | plain v => rfl
  | sealed => cases h

end Value

namespace Properties

def opened (m : Properties β) : Properties β := m.map fun p => (p.1, p.2.opened)

/-- No value of the map is an envelope. -/
def AllPlain (m : Properties β) : Prop := ∀ p ∈ m, p.2.isPlain

instance (m : Properties β) : Decidable (AllPlain m) := by
  unfold AllPlain
  infer_instance

variable {m patch : Properties β}

lemma opened_of_allPlain (h : AllPlain m) : opened m = m := by
  induction m with
  | nil => rfl
  | cons p m ih =>
    obtain ⟨hp, hm⟩ := forall_mem_cons.mp h
    rw [opened, map_cons, Value.opened_of_isPlain hp]
    exact congrArg _ (ih hm)

lemma opened_remove (key : String) : opened (remove m key) = remove (opened m) key := by
  simp only [opened, remove, filter_map]
  rfl

lemma opened_insert (key : String) (v : Value β) :
    opened (insert m key v) = insert (opened m) key v.opened := by
  rw [insert, insert, ← opened_remove]
  exact map_append

lemma opened_merge (h : AllPlain patch) : opened (merge m patch) = merge (opened m) patch := by
  unfold merge
  induction patch generalizing m with
  | nil => rfl
  | cons p patch ih =>
    obtain ⟨hp, hpatch⟩ := forall_mem_cons.mp h
    rw [foldl_cons, foldl_cons, ih hpatch, opened_insert, Value.opened_of_isPlain hp]

lemma any_key_opened (key : String) :
    ((opened m).any fun p => p.1 = key) = m.any fun p => p.1 = key := by
  rw [opened, any_map]
  rfl

lemma mem_merge {p : String × Value β} (h : p ∈ merge m patch) :
    p ∈ patch ∨ (p ∈ m ∧ p.1 ∉ patch.map Prod.fst) := by
  unfold merge at h
  induction patch generalizing m with
  | nil => exact .inr ⟨h, fun hk => nomatch hk⟩
  | cons q patch ih =>
    rw [foldl_cons] at h
    rcases ih h with hp | ⟨hp, hkey⟩
    · exact .inl (mem_cons_of_mem _ hp)
    rcases mem_append.mp hp with hp | hp
    · obtain ⟨hp, hne⟩ := mem_filter.mp hp
      refine .inr ⟨hp, ?_⟩
      rw [map_cons, mem_cons, not_or]
      exact ⟨by simpa using hne, hkey⟩
    · rw [mem_singleton.mp hp]
      exact .inl mem_cons_self

end Properties

def PropertyWrite.opened (w : PropertyWrite β) : PropertyWrite β :=
  match w.properties? with
  | some m => w.setProperties m.opened
  | none => w

/-- Without a sealing context. -/
def WriteTx.opened (tx : WriteTx β) : WriteTx β :=
  ⟨none, tx.buffer.map PropertyWrite.opened, tx.phase⟩

def EntityState.opened (st : EntityState β) : EntityState β :=
  ⟨st.current.map Properties.opened, st.versions.map Properties.opened⟩

def PropertyStore.opened (st : PropertyStore β) : PropertyStore β :=
  ⟨fun e => (st.entities e).opened, st.txs.map WriteTx.opened⟩

/-! ### The calls without sealing -/

namespace PropertyStore

/-- The same call on a database that seals nothing. -/
def plainStep (st : PropertyStore β) : SealAction β → Option (PropertyStore β)
  | .designate _ _ _ _ | .erase _ _ _ => some st
  | .begin => some (st.begin none)
  | .request t r => st.request t r
  | .commit t => (st.inPhase t .active).map fun tx => st.setPhase t tx (.sealing 0)
  | .sealNext t => (st.txs[t]?).bind fun tx =>
      match tx.phase with
      | .sealing n => (tx.buffer[n]?).map fun _ => st.setPhase t tx (.sealing (n + 1))
      | _ => none
  | .apply t choices => st.apply t choices
  | .rollback t => st.rollback t

def empty : PropertyStore β := ⟨fun _ => ⟨none, []⟩, []⟩

end PropertyStore

/-! ### Taking off a layer commutes with the calls -/

section Commute

variable {st : PropertyStore β} {tx : WriteTx β} {t : ℕ} {e : EntityId} {w : PropertyWrite β}
  {es : EntityState β}

@[simp] lemma PropertyWrite.entity_opened : w.opened.entity = w.entity := by cases w <;> rfl

@[simp] lemma PropertyWrite.properties?_opened :
    w.opened.properties? = w.properties?.map Properties.opened := by
  cases w <;> rfl

@[simp] lemma WriteTx.phase_opened : tx.opened.phase = tx.phase := rfl

@[simp] lemma WriteTx.buffer_opened : tx.opened.buffer = tx.buffer.map PropertyWrite.opened := rfl

@[simp] lemma PropertyStore.txs_opened : st.opened.txs = st.txs.map WriteTx.opened := rfl

@[simp] lemma PropertyStore.entities_opened : st.opened.entities e = (st.entities e).opened := rfl

lemma PropertyStore.readOwn_opened :
    st.opened.readOwn tx.opened e = (st.readOwn tx e).map Properties.opened := by
  simp only [readOwn, WriteTx.buffer_opened, ← map_reverse, List.find?_map]
  have hcomp : ((fun w : PropertyWrite β => decide (w.entity = e)) ∘ PropertyWrite.opened) =
      fun w => decide (w.entity = e) := by
    funext w
    simp
  rw [hcomp]
  cases tx.buffer.reverse.find? fun w => w.entity = e with
  | none => rfl
  | some w => simp

lemma PropertyStore.fresh_opened : st.opened.fresh e = st.fresh e := by
  simp only [fresh, entities_opened, EntityState.opened, txs_opened, all_map]
  congr 1
  · simp
  · congr 1
    funext tx
    simp [comp_def]

lemma PropertyStore.putTx_opened : (st.putTx t tx).opened = st.opened.putTx t tx.opened := by
  simp only [putTx, opened, map_set]

lemma PropertyStore.setPhase_opened {phase : TxPhase} :
    (st.setPhase t tx phase).opened = st.opened.setPhase t tx.opened phase :=
  putTx_opened

lemma PropertyStore.inPhase_opened {phase : TxPhase} :
    st.opened.inPhase t phase = (st.inPhase t phase).map WriteTx.opened := by
  simp only [inPhase, txs_opened, List.getElem?_map]
  cases st.txs[t]? with
  | none => rfl
  | some tx =>
    by_cases h : tx.phase = phase <;> simp [Option.filter_some, h]

lemma EntityState.version_opened (i : Option ℕ) :
    es.opened.version i = (es.version i).map Properties.opened := by
  cases i with
  | none => rfl
  | some i => simp [version, opened]

lemma EntityState.apply_opened {choice : Choice} :
    (es.opened.apply w.opened choice).state = (es.apply w choice).state.opened := by
  cases w with
  | create e m => rfl
  | update e m expected =>
    simp only [apply, PropertyWrite.opened, PropertyWrite.properties?,
      PropertyWrite.setProperties, update, version_opened]
    cases es.version choice.reassert <;> cases es.version choice.carry <;> simp [opened]
  | delete e | retract e =>
    obtain ⟨current, versions⟩ := es
    cases current <;> rfl

lemma PropertyStore.applyWrite_opened {choice : Choice} :
    st.opened.applyWrite w.opened choice = (st.applyWrite w choice).opened := by
  simp only [applyWrite, PropertyWrite.entity_opened, entities_opened, EntityState.apply_opened]
  simp only [opened, mk.injEq, and_true]
  funext e
  by_cases he : e = w.entity
  · subst he
    simp
  · simp [update_of_ne he]

lemma PropertyStore.applyAll_opened (ws : List (PropertyWrite β × Choice)) :
    st.opened.applyAll (ws.map fun wc => (wc.1.opened, wc.2)) = (st.applyAll ws).opened := by
  induction ws generalizing st with
  | nil => rfl
  | cons wc ws ih =>
    rw [map_cons, applyAll, applyWrite_opened, ih, applyAll]

lemma PropertyStore.preconditions_opened :
    st.opened.preconditions tx.opened = st.preconditions tx := by
  simp only [preconditions, WriteTx.buffer_opened, all_map]
  congr 1
  funext w
  cases w with
  | update e m expected =>
    cases expected with
    | none => rfl
    | some n => simp [PropertyWrite.opened, PropertyWrite.properties?,
        PropertyWrite.setProperties, EntityState.opened]
  | _ => rfl

lemma PropertyStore.sealedTx_opened :
    st.opened.sealedTx t = (st.sealedTx t).map WriteTx.opened := by
  simp only [sealedTx, txs_opened, List.getElem?_map]
  cases st.txs[t]? with
  | none => rfl
  | some tx =>
    by_cases h : tx.phase = .sealing tx.buffer.length <;> simp [Option.filter_some, h]

lemma PropertyStore.apply_opened {choices : List Choice} :
    st.opened.apply t choices = (st.apply t choices).map opened := by
  simp only [apply, sealedTx_opened]
  cases st.sealedTx t with
  | none => rfl
  | some tx =>
    simp only [Option.map_some, Option.bind_some, WriteTx.buffer_opened, length_map,
      preconditions_opened, ← setPhase_opened]
    split_ifs
    · have hzip : (tx.buffer.map PropertyWrite.opened).zip choices =
          (tx.buffer.zip choices).map fun wc => (wc.1.opened, wc.2) := by
        rw [zip_map_left]
        rfl
      rw [hzip, applyAll_opened]
      rfl
    · rfl
    · rfl

lemma PropertyStore.rollback_opened : st.opened.rollback t = (st.rollback t).map opened := by
  simp only [rollback, txs_opened, List.getElem?_map]
  cases st.txs[t]? with
  | none => rfl
  | some tx =>
    by_cases h : tx.phase = .closed <;> simp [h, setPhase_opened]

end Commute

end Aletheia.CryptoShred
