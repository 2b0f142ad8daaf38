import Mathlib.Data.Finset.Union
import Mathlib.Data.Finset.Card
import Mathlib.Data.Nat.Find

/-!
# Breadth-first search with a bound on the depth

A queue of places, a set of visited nodes. A place that leaves the queue is expanded if it lies above
the bound, and each neighbour not visited so far enters the queue one step deeper. The places leave
the queue in the order of their distance from the start, each node once, and all nodes within the
bound do.
-/

namespace Aletheia.Bfs

open Option Finset

/-! ### Walks -/

section Walks

variable {V : Type} (R : V → V → Prop)

/-- A walk of `k` steps. -/
inductive Walk (u : V) : ℕ → V → Prop
  | nil : Walk u 0 u
  | snoc {k : ℕ} {v w : V} : Walk u k v → R v w → Walk u (k + 1) w

/-- `w` lies `k` steps from `u`. -/
def Distance (u : V) (k : ℕ) (w : V) : Prop := Walk R u k w ∧ ∀ j, Walk R u j w → k ≤ j

variable {R} {u v w : V} {j k : ℕ}

lemma Walk.trans (h : Walk R u j v) (h' : Walk R v k w) : Walk R u (j + k) w := by
  induction h' with
  | nil => exact h
  | snoc _ hstep ih => exact .snoc ih hstep

lemma Walk.mono {R' : V → V → Prop} (h : Walk R u k w) (hR : ∀ a b, R a b → R' a b) :
    Walk R' u k w := by
  induction h with
  | nil => exact .nil
  | snoc _ hstep ih => exact .snoc ih (hR _ _ hstep)

lemma Walk.eq_of_zero (h : Walk R u 0 w) : w = u := by
  cases h
  rfl

lemma Distance.unique (h : Distance R u j w) (h' : Distance R u k w) : j = k :=
  le_antisymm (h.2 k h'.1) (h'.2 j h.1)

lemma Walk.exists_distance (h : Walk R u k w) : ∃ j ≤ k, Distance R u j w := by
  classical
  have hex : ∃ j, Walk R u j w := ⟨k, h⟩
  exact ⟨Nat.find hex, Nat.find_min' hex h, Nat.find_spec hex, fun j hj => Nat.find_min' hex hj⟩

lemma Distance.pred (h : Distance R u (k + 1) w) : ∃ v, Distance R u k v ∧ R v w := by
  obtain ⟨hwalk, hmin⟩ := h
  cases hwalk with
  | snoc hv hstep =>
    refine ⟨_, ⟨hv, fun j hj => ?_⟩, hstep⟩
    have := hmin (j + 1) (.snoc hj hstep)
    omega

end Walks

/-! ### The search -/

variable {V E : Type} [DecidableEq V]

/-- A place in the queue: a node, the steps that led to it, and their number. -/
structure Place (V E : Type) where
  node : V
  trail : List (V × E)
  depth : ℕ

structure State (V E : Type) where
  frontier : List (Place V E)
  visited : Finset V

/-- Look at one neighbour. With `again` it enters the queue even if it was visited before. -/
def enqueue (again : Bool) (p : Place V E) (s : State V E) (hop : V × E) : State V E where
  frontier :=
    if hop.1 ∉ s.visited ∨ again then s.frontier ++ [⟨hop.1, p.trail ++ [hop], p.depth + 1⟩]
    else s.frontier
  visited := insert hop.1 s.visited

variable (next : V → List (V × E)) (bound : ℕ) (again : Bool)

/-- Take the first place from the queue and expand it. -/
def visit (s : State V E) : Option (Place V E × State V E) :=
  match s.frontier with
  | [] => none
  | p :: rest =>
    let s' : State V E := ⟨rest, s.visited⟩
    some (p, if p.depth < bound then (next p.node).foldl (enqueue again p) s' else s')

/-- The places in the order in which they leave the queue; `none` if the fuel does not last. -/
def visits : ℕ → State V E → Option (List (Place V E))
  | 0, s => if s.frontier.isEmpty then some [] else none
  | fuel + 1, s =>
    match visit next bound again s with
    | none => some []
    | some (p, s') => (visits fuel s').map (p :: ·)

def start (u : V) : State V E := ⟨[⟨u, [], 0⟩], {u}⟩

variable {places : List (Place V E)} {fuel : ℕ}

lemma visits_forall {P : Place V E → Prop} {next : V → List (V × E)} {bound : ℕ} {again : Bool}
    (hstep : ∀ p hop, P p → hop ∈ next p.node → P ⟨hop.1, p.trail ++ [hop], p.depth + 1⟩)
    {s : State V E} (hs : ∀ p ∈ s.frontier, P p)
    (h : visits next bound again fuel s = some places) : ∀ p ∈ places, P p := by
  have hfold : ∀ p, P p → ∀ hops : List (V × E), (∀ hop ∈ hops, hop ∈ next p.node) →
      ∀ s : State V E, (∀ q ∈ s.frontier, P q) →
        ∀ q ∈ (hops.foldl (enqueue again p) s).frontier, P q := by
    intro p hp hops
    induction hops with
    | nil => exact fun _ s hs => hs
    | cons hop hops ih =>
      intro hmem s hs
      refine ih (fun hop' hhop' => hmem hop' (List.mem_cons_of_mem _ hhop')) _ fun q hq => ?_
      simp only [enqueue] at hq
      split_ifs at hq
      · obtain hq | hq := List.mem_append.mp hq
        · exact hs q hq
        · obtain rfl := List.mem_singleton.mp hq
          exact hstep p hop hp (hmem hop List.mem_cons_self)
      · exact hs q hq
  induction fuel generalizing s places with
  | zero =>
    simp only [visits, ite_none_right_eq_some, some.injEq] at h
    simp [← h.2]
  | succ fuel ih =>
    rw [visits] at h
    cases hfrontier : s.frontier with
    | nil =>
      simp only [visit, hfrontier, some.injEq] at h
      simp [← h]
    | cons p rest =>
      simp only [visit, hfrontier, map_eq_some_iff] at h
      obtain ⟨tail, htail, rfl⟩ := h
      have hp : P p := hs p (by simp [hfrontier])
      have hrest : ∀ q ∈ rest, P q := fun q hq => hs q (by simp [hfrontier, hq])
      intro q hq
      obtain rfl | hq := List.mem_cons.mp hq
      · exact hp
      · refine ih ?_ htail q hq
        split_ifs
        · exact hfold p hp _ (fun _ hop => hop) ⟨rest, s.visited⟩ hrest
        · exact hrest

/-! ### One expansion -/

def Step (v w : V) : Prop := ∃ hop ∈ next v, hop.1 = w

/-- What the neighbours `hops` of `p` add to the queue. -/
structure Expands (hops : List (V × E)) (p : Place V E) (s s' : State V E)
    (fresh : List (Place V E)) : Prop where
  frontier : s'.frontier = s.frontier ++ fresh
  visited : ∀ w, w ∈ s'.visited ↔ w ∈ s.visited ∨ ∃ q ∈ fresh, q.node = w
  all : ∀ hop ∈ hops, hop.1 ∈ s'.visited
  new : ∀ q ∈ fresh, q.node ∉ s.visited
  hop : ∀ q ∈ fresh, ∃ hop ∈ hops, hop.1 = q.node
  depth : ∀ q ∈ fresh, q.depth = p.depth + 1
  nodup : (fresh.map Place.node).Nodup

omit [DecidableEq V] in
lemma Expands.nil (p : Place V E) (s : State V E) : Expands [] p s s [] := by
  constructor <;> simp

lemma exists_expands (hops : List (V × E)) (p : Place V E) (s : State V E) :
    ∃ fresh, Expands hops p s (hops.foldl (enqueue false p) s) fresh := by
  induction hops generalizing s with
  | nil => exact ⟨[], .nil p s⟩
  | cons hop hops ih =>
    obtain ⟨fresh, h⟩ := ih (enqueue false p s hop)
    rw [List.foldl_cons]
    by_cases hseen : hop.1 ∈ s.visited
    · -- nothing is added for a node that was visited
      have hsame : enqueue false p s hop = s := by
        simp [enqueue, hseen]
      rw [hsame] at h ⊢
      refine ⟨fresh, h.frontier, h.visited, ?_, h.new, ?_, h.depth, h.nodup⟩
      · intro hop' hmem
        obtain rfl | hmem := List.mem_cons.mp hmem
        · exact (h.visited _).mpr (.inl hseen)
        · exact h.all hop' hmem
      · intro q hq
        obtain ⟨hop', hmem, heq⟩ := h.hop q hq
        exact ⟨hop', List.mem_cons_of_mem _ hmem, heq⟩
    · set q : Place V E := ⟨hop.1, p.trail ++ [hop], p.depth + 1⟩ with hq
      have hfrontier : (enqueue false p s hop).frontier = s.frontier ++ [q] := by
        simp [enqueue, hseen, hq]
      have hvisited : ∀ w, w ∈ (enqueue false p s hop).visited ↔ w = hop.1 ∨ w ∈ s.visited := by
        simp [enqueue]
      refine ⟨q :: fresh, ?_, ?_, ?_, ?_, ?_, ?_, ?_⟩
      · rw [h.frontier, hfrontier, List.append_assoc]
        rfl
      · intro w
        rw [h.visited, hvisited]
        simp only [List.mem_cons, exists_eq_or_imp, hq]
        tauto
      · intro hop' hmem
        obtain rfl | hmem := List.mem_cons.mp hmem
        · exact (h.visited _).mpr (.inl ((hvisited _).mpr (.inl rfl)))
        · exact h.all hop' hmem
      · intro q' hq'
        obtain rfl | hq' := List.mem_cons.mp hq'
        · exact hseen
        · exact fun hold => h.new q' hq' ((hvisited _).mpr (.inr hold))
      · intro q' hq'
        obtain rfl | hq' := List.mem_cons.mp hq'
        · exact ⟨hop, List.mem_cons_self, rfl⟩
        · obtain ⟨hop', hmem, heq⟩ := h.hop q' hq'
          exact ⟨hop', List.mem_cons_of_mem _ hmem, heq⟩
      · intro q' hq'
        obtain rfl | hq' := List.mem_cons.mp hq'
        · rfl
        · exact h.depth q' hq'
      · rw [List.map_cons, List.nodup_cons]
        refine ⟨fun hmem => ?_, h.nodup⟩
        obtain ⟨q', hq', heq⟩ := List.mem_map.mp hmem
        exact h.new q' hq' ((hvisited _).mpr (.inl heq))

/-! ### The queue during the search -/

/-- The places `done` have left the queue. -/
structure Invariant (u : V) (done : List (Place V E)) (s : State V E) : Prop where
  near : ∀ p ∈ done ++ s.frontier, Distance (Step next) u p.depth p.node
  nodup : ((done ++ s.frontier).map Place.node).Nodup
  visited : ∀ w, w ∈ s.visited ↔ ∃ p ∈ done ++ s.frontier, p.node = w
  start : u ∈ s.visited
  /-- the neighbours of what has left the queue were looked at -/
  expanded : ∀ p ∈ done, p.depth < bound → ∀ w, Step next p.node w → w ∈ s.visited
  bounded : ∀ p ∈ done ++ s.frontier, p.depth ≤ bound
  /-- the queue is ordered by depth and holds two depths at most -/
  sorted : s.frontier.Pairwise fun p q => p.depth ≤ q.depth
  spread : ∀ p ∈ s.frontier, ∀ q ∈ s.frontier, q.depth ≤ p.depth + 1

variable {next bound} {u : V} {done : List (Place V E)} {s : State V E}

omit [DecidableEq V] in
lemma invariant_start (u : V) : Invariant next bound u [] (start u : State V E) where
  near := by
    intro p hp
    obtain rfl := List.mem_singleton.mp hp
    exact ⟨.nil, fun j _ => Nat.zero_le j⟩
  nodup := by simp [Bfs.start]
  visited w := by simp [Bfs.start, eq_comm]
  start := by simp [Bfs.start]
  expanded := by simp
  bounded := by
    intro p hp
    obtain rfl := List.mem_singleton.mp hp
    exact Nat.zero_le _
  sorted := List.pairwise_singleton _ _
  spread := by
    intro p hp q hq
    obtain rfl := List.mem_singleton.mp hp
    obtain rfl := List.mem_singleton.mp hq
    exact Nat.le_succ _

variable (h : Invariant next bound u done s)

include h

lemma Invariant.closed {j : ℕ} {w : V} (hw : Distance (Step next) u j w)
    (hj : ∀ p ∈ s.frontier, j ≤ p.depth) (hbound : j ≤ bound) : w ∈ s.visited := by
  induction j generalizing w with
  | zero =>
    rw [hw.1.eq_of_zero]
    exact h.start
  | succ j ih =>
    obtain ⟨v, hv, hstep⟩ := hw.pred
    have hvisited := ih hv (fun p hp => (Nat.le_succ j).trans (hj p hp)) ((Nat.le_succ j).trans hbound)
    obtain ⟨p, hp, rfl⟩ := (h.visited v).mp hvisited
    have hdepth : p.depth = j := (h.near p hp).unique hv
    obtain hp | hp := List.mem_append.mp hp
    · exact h.expanded p hp (hdepth ▸ hbound) w hstep
    · -- a place in the queue would lie nearer than the queue
      have := hj p hp
      omega

lemma Invariant.expand {p : Place V E} {rest : List (Place V E)}
    (hfrontier : s.frontier = p :: rest) {hops : List (V × E)} {s' : State V E}
    {fresh : List (Place V E)} (hex : Expands hops p ⟨rest, s.visited⟩ s' fresh)
    (hhops : hops = if p.depth < bound then next p.node else []) :
    Invariant next bound u (done ++ [p]) s' := by
  have hplaces : done ++ [p] ++ s'.frontier = done ++ s.frontier ++ fresh := by
    simp [hex.frontier, hfrontier]
  have hp : p ∈ s.frontier := by simp [hfrontier]
  have hsorted := h.sorted
  rw [hfrontier, List.pairwise_cons] at hsorted
  have hmin : ∀ q ∈ s.frontier, p.depth ≤ q.depth := by
    intro q hq
    rw [hfrontier] at hq
    obtain rfl | hq := List.mem_cons.mp hq
    · exact le_rfl
    · exact hsorted.1 q hq
  have hrest : ∀ q ∈ rest, p.depth ≤ q.depth ∧ q.depth ≤ p.depth + 1 := by
    intro q hq
    have hmem : q ∈ s.frontier := by simp [hfrontier, hq]
    exact ⟨hmin q hmem, h.spread p hp q hmem⟩
  have hwithin : ∀ q ∈ fresh, p.depth < bound ∧ Step next p.node q.node := by
    intro q hq
    obtain ⟨hop, hmem, heq⟩ := hex.hop q hq
    rw [hhops] at hmem
    split_ifs at hmem with hlt
    · exact ⟨hlt, hop, hmem, heq⟩
    · exact absurd hmem List.not_mem_nil
  constructor
  case near =>
    rw [hplaces]
    intro q hq
    obtain hq | hq := List.mem_append.mp hq
    · exact h.near q hq
    · obtain ⟨hlt, hstep⟩ := hwithin q hq
      have hwalk := (h.near p (List.mem_append_right _ hp)).1
      rw [hex.depth q hq]
      refine ⟨.snoc hwalk hstep, fun j hj => ?_⟩
      by_contra hshort
      obtain ⟨i, hij, hi⟩ := hj.exists_distance
      refine hex.new q hq (h.closed hi (fun r hr => ?_) ?_)
      · have := hmin r hr
        omega
      · omega
  case nodup =>
    rw [hplaces, List.map_append, List.nodup_append]
    refine ⟨h.nodup, hex.nodup, ?_⟩
    rintro _ hold _ hnew rfl
    obtain ⟨q, hq, heq⟩ := List.mem_map.mp hnew
    obtain ⟨r, hr, heq'⟩ := List.mem_map.mp hold
    exact hex.new q hq ((h.visited _).mpr ⟨r, hr, heq'.trans heq.symm⟩)
  case visited =>
    intro w
    rw [hplaces, hex.visited, h.visited]
    simp only [List.mem_append, or_and_right, exists_or]
  case start => exact (hex.visited u).mpr (.inl h.start)
  case expanded =>
    intro q hq hlt w hstep
    obtain hq | hq := List.mem_append.mp hq
    · exact (hex.visited w).mpr (.inl (h.expanded q hq hlt w hstep))
    · obtain rfl := List.mem_singleton.mp hq
      obtain ⟨hop, hmem, rfl⟩ := hstep
      exact hex.all hop (by rwa [hhops, if_pos hlt])
  case bounded =>
    rw [hplaces]
    intro q hq
    obtain hq | hq := List.mem_append.mp hq
    · exact h.bounded q hq
    · rw [hex.depth q hq]
      exact (hwithin q hq).1
  case sorted =>
    rw [hex.frontier, List.pairwise_append]
    refine ⟨hsorted.2, ?_, fun q hq r hr => ?_⟩
    · refine List.Pairwise.imp_of_mem ?_ (List.pairwise_of_forall (R := fun _ _ => True) (by simp))
      intro q r hq hr _
      rw [hex.depth q hq, hex.depth r hr]
    · rw [hex.depth r hr]
      exact (hrest q hq).2
  case spread =>
    have hband : ∀ q ∈ s'.frontier, p.depth ≤ q.depth ∧ q.depth ≤ p.depth + 1 := by
      rw [hex.frontier]
      intro q hq
      obtain hq | hq := List.mem_append.mp hq
      · exact hrest q hq
      · have := hex.depth q hq
        omega
    intro q hq r hr
    have := hband q hq
    have := hband r hr
    omega

/-- **One step of the search.** -/
lemma Invariant.visit {p : Place V E} {s' : State V E}
    (hs : visit next bound false s = some (p, s')) : Invariant next bound u (done ++ [p]) s' := by
  cases hfrontier : s.frontier with
  | nil => simp [Bfs.visit, hfrontier] at hs
  | cons p₀ rest =>
    simp only [Bfs.visit, hfrontier, some.injEq, Prod.mk.injEq] at hs
    obtain ⟨rfl, rfl⟩ := hs
    split_ifs with hlt
    · obtain ⟨fresh, hex⟩ := exists_expands (next p₀.node) p₀ ⟨rest, s.visited⟩
      exact h.expand hfrontier hex (if_pos hlt).symm
    · exact h.expand hfrontier (.nil _ _) (if_neg hlt).symm

omit h

/-! ### The whole search -/

/-- The nodes within `k` steps. -/
def ball (next : V → List (V × E)) (u : V) : ℕ → Finset V
  | 0 => {u}
  | k + 1 => ball next u k ∪ (ball next u k).biUnion fun v => ((next v).map Prod.fst).toFinset

lemma mem_ball {k : ℕ} {w : V} (h : Walk (Step next) u k w) : w ∈ ball next u k := by
  induction h with
  | nil => simp [ball]
  | snoc _ hstep ih =>
    obtain ⟨hop, hmem, rfl⟩ := hstep
    simp only [ball, mem_union, mem_biUnion, List.mem_toFinset, List.mem_map]
    exact .inr ⟨_, ih, hop, hmem, rfl⟩

lemma ball_subset {j k : ℕ} (h : j ≤ k) : ball next u j ⊆ ball next u k := by
  induction h with
  | refl => exact Finset.Subset.rfl
  | step _ ih => exact ih.trans subset_union_left

variable (h : Invariant next bound u done s)

include h

lemma Invariant.length_le : done.length + s.frontier.length ≤ (ball next u bound).card := by
  have hsub : ((done ++ s.frontier).map Place.node).toFinset ⊆ ball next u bound := by
    intro w hw
    obtain ⟨p, hp, rfl⟩ := List.mem_map.mp (List.mem_toFinset.mp hw)
    exact ball_subset (h.bounded p hp) (mem_ball (h.near p hp).1)
  have hcard := card_le_card hsub
  rwa [List.toFinset_card_of_nodup h.nodup, List.length_map, List.length_append] at hcard

lemma Invariant.exists_visits (hfuel : (ball next u bound).card ≤ done.length + fuel) :
    ∃ places, visits next bound false fuel s = some places := by
  induction fuel generalizing done s with
  | zero =>
    have hlength := h.length_le
    have hempty : s.frontier = [] := List.eq_nil_of_length_eq_zero (by omega)
    exact ⟨[], by simp [visits, hempty]⟩
  | succ fuel ih =>
    cases hvisit : Bfs.visit next bound false s with
    | none => exact ⟨[], by simp [visits, hvisit]⟩
    | some ps =>
      obtain ⟨p, s₁⟩ := ps
      obtain ⟨places, hplaces⟩ := ih (h.visit hvisit) (by
        rw [List.length_append, List.length_singleton]
        omega)
      exact ⟨p :: places, by simp [visits, hvisit, hplaces]⟩

variable (hvisits : visits next bound false fuel s = some places)

include hvisits

lemma Invariant.of_visits :
    ∃ s', s'.frontier = [] ∧ Invariant next bound u (done ++ places) s' := by
  induction fuel generalizing done s places with
  | zero =>
    simp only [visits, ite_none_right_eq_some, List.isEmpty_iff, some.injEq] at hvisits
    obtain ⟨hempty, rfl⟩ := hvisits
    exact ⟨s, hempty, by rwa [List.append_nil]⟩
  | succ fuel ih =>
    rw [visits] at hvisits
    cases hvisit : Bfs.visit next bound false s with
    | none =>
      rw [hvisit] at hvisits
      cases hvisits
      refine ⟨s, ?_, by rwa [List.append_nil]⟩
      cases hfrontier : s.frontier with
      | nil => rfl
      | cons p rest => simp [Bfs.visit, hfrontier] at hvisit
    | some ps =>
      obtain ⟨p, s₁⟩ := ps
      simp only [hvisit, map_eq_some_iff] at hvisits
      obtain ⟨tail, htail, rfl⟩ := hvisits
      simpa using ih (h.visit hvisit) htail

lemma Invariant.pairwise_visits : places.Pairwise fun p q => p.depth ≤ q.depth := by
  induction fuel generalizing done s places with
  | zero =>
    simp only [visits, ite_none_right_eq_some, some.injEq] at hvisits
    simp [← hvisits.2]
  | succ fuel ih =>
    cases hfrontier : s.frontier with
    | nil =>
      simp only [visits, Bfs.visit, hfrontier, some.injEq] at hvisits
      simp [← hvisits]
    | cons p rest =>
      have hsorted := h.sorted
      rw [hfrontier, List.pairwise_cons] at hsorted
      -- nothing that is found later lies above the front of the queue
      have hdeeper : ∀ q ∈ places, p.depth ≤ q.depth := by
        refine visits_forall (fun q hop hq _ => hq.trans (Nat.le_succ _)) (fun q hq => ?_) hvisits
        rw [hfrontier, List.mem_cons] at hq
        obtain rfl | hq := hq
        · exact le_rfl
        · exact hsorted.1 q hq
      cases hvisit : Bfs.visit next bound false s with
      | none => simp [Bfs.visit, hfrontier] at hvisit
      | some ps =>
        obtain ⟨p₁, s₁⟩ := ps
        obtain rfl : p = p₁ := by
          simp only [Bfs.visit, hfrontier, some.injEq, Prod.mk.injEq] at hvisit
          exact hvisit.1
        simp only [visits, hvisit, map_eq_some_iff] at hvisits
        obtain ⟨tail, htail, rfl⟩ := hvisits
        rw [List.pairwise_cons]
        exact ⟨fun q hq => hdeeper q (List.mem_cons_of_mem _ hq), ih (h.visit hvisit) htail⟩

omit hvisits

omit h

/-- With enough fuel the search ends. -/
theorem exists_visits (u : V) (hfuel : (ball next u bound).card ≤ fuel) :
    ∃ places, visits next bound false fuel (start u) = some places :=
  (invariant_start u).exists_visits (hfuel.trans (Nat.le_add_left _ _))

/-- **The search is complete and sound**: the places it visits are the nodes within the bound, each
once and with its distance. -/
theorem visits_start {u : V} (h : visits next bound false fuel (start u) = some places) :
    (places.map Place.node).Nodup ∧ ∀ w k, (∃ p ∈ places, p.node = w ∧ p.depth = k) ↔
        Distance (Step next) u k w ∧ k ≤ bound := by
  obtain ⟨s', hempty, hinv⟩ := (invariant_start u).of_visits h
  rw [List.nil_append] at hinv
  have hnodup := hinv.nodup
  rw [hempty, List.append_nil] at hnodup
  refine ⟨hnodup, fun w k => ⟨?_, ?_⟩⟩
  · rintro ⟨p, hp, rfl, rfl⟩
    exact ⟨hinv.near p (List.mem_append_left _ hp), hinv.bounded p (List.mem_append_left _ hp)⟩
  · rintro ⟨hdist, hk⟩
    have hvisited := hinv.closed hdist (by simp [hempty]) hk
    obtain ⟨p, hp, rfl⟩ := (hinv.visited w).mp hvisited
    rw [hempty, List.append_nil] at hp
    exact ⟨p, hp, rfl, (hinv.near p (List.mem_append_left _ hp)).unique hdist⟩

end Aletheia.Bfs
