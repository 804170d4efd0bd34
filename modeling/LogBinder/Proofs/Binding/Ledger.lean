/-
  Log binder — the ledger of subscriptions.

  The ledger of a session is what it knows of live subscriptions, of those
  that callbacks keep, and of the ids and identities given so far.

  * `Ledger.IsOrderly` : ids and identities in use have been given before;
  * `Ledger.Later` : a later ledger is orderly if the earlier one is;
  * `Ledger.Grows` : subscriptions are added, and kept ones left alone;
  * `Grows.renew` : what it takes for a callback to replace its own
    subscriptions;
  * `Ledger.follow` : a ledger with more subscriptions under the next ids.
-/
import LogBinder.Binding.Reload
import Mathlib.Data.List.Basic

namespace LogBinder

/-! ## Ledgers -/

/-- What a session knows of subscriptions and identities. -/
structure Ledger where
  live : List Nat
  nextId : Nat
  kept : List (Nat × List Nat)
  nextIdentity : Nat

/-- The ledger of a session. -/
def Session.ledger (s : Session) : Ledger where
  live := s.root.subscriptions.map (·.id)
  nextId := s.root.nextId
  kept := s.kept
  nextIdentity := s.nextIdentity

namespace Ledger

/-- All ids and identities in use have been given before. -/
structure IsOrderly (l : Ledger) : Prop where
  live : ∀ i ∈ l.live, i < l.nextId
  identity : ∀ e ∈ l.kept, e.1 < l.nextIdentity
  ids : ∀ e ∈ l.kept, ∀ i ∈ e.2, i < l.nextId

/-- A ledger that comes after another one. -/
structure Later (l l' : Ledger) : Prop where
  nextId : l.nextId ≤ l'.nextId
  nextIdentity : l.nextIdentity ≤ l'.nextIdentity
  isOrderly : l.IsOrderly → l'.IsOrderly

theorem Later.refl (l : Ledger) : Later l l := ⟨Nat.le_refl _, Nat.le_refl _, id⟩

theorem Later.trans {l l' l'' : Ledger} (h : Later l l') (h' : Later l' l'') : Later l l'' :=
  ⟨Nat.le_trans h.nextId h'.nextId, Nat.le_trans h.nextIdentity h'.nextIdentity,
    fun hl => h'.isOrderly (h.isOrderly hl)⟩

/-- Only identities have been given. -/
def Raised (l l' : Ledger) : Prop :=
  ∃ m, l.nextIdentity ≤ m ∧ l' = { l with nextIdentity := m }

theorem Raised.refl (l : Ledger) : Raised l l := ⟨l.nextIdentity, Nat.le_refl _, rfl⟩

theorem Raised.trans {l l' l'' : Ledger} (h : Raised l l') (h' : Raised l' l'') :
    Raised l l'' := by
  obtain ⟨m, hm, rfl⟩ := h
  obtain ⟨k, hk, rfl⟩ := h'
  exact ⟨k, Nat.le_trans hm hk, rfl⟩

theorem Raised.later {l l' : Ledger} (h : Raised l l') : Later l l' := by
  obtain ⟨m, hm, rfl⟩ := h
  refine ⟨Nat.le_refl _, hm, fun hl => ⟨hl.live, fun e he => ?_, hl.ids⟩⟩
  exact Nat.lt_of_lt_of_le (hl.identity e he) hm

/-- A number of subscriptions is added; what is kept changes for some identities and for new ones
only. -/
structure Grows (count : Nat) (touched : List Nat) (l l' : Ledger) : Prop where
  live : ∃ new, l'.live = l.live ++ new ∧ new.length = count ∧ ∀ i ∈ new, l.nextId ≤ i
  kept : ∀ i < l.nextIdentity, i ∉ touched → l'.kept.lookup i = l.kept.lookup i

theorem Grows.refl (l : Ledger) : Grows 0 [] l l :=
  ⟨⟨[], by simp⟩, fun _ _ _ => rfl⟩

theorem Grows.trans {k k' : Nat} {ids ids' : List Nat} {l l' l'' : Ledger}
    (h : Grows k ids l l') (h' : Grows k' ids' l' l'') (hl : Later l l') :
    Grows (k + k') (ids ++ ids') l l'' := by
  obtain ⟨new, hnew, hlen, hge⟩ := h.live
  obtain ⟨new', hnew', hlen', hge'⟩ := h'.live
  refine ⟨⟨new ++ new', ?_, ?_, ?_⟩, ?_⟩
  · rw [hnew', hnew, List.append_assoc]
  · rw [List.length_append, hlen, hlen']
  · intro i hi
    rcases List.mem_append.1 hi with hi | hi
    · exact hge i hi
    · exact Nat.le_trans hl.nextId (hge' i hi)
  · intro i hi hn
    rw [List.mem_append, not_or] at hn
    rw [h'.kept i (Nat.lt_of_lt_of_le hi hl.nextIdentity) hn.2, h.kept i hi hn.1]

theorem Grows.weaken {k : Nat} {ids ids' : List Nat} {l l' : Ledger} (h : Grows k ids l l')
    (hids : ids ⊆ ids') : Grows k ids' l l' :=
  ⟨h.live, fun i hi hn => h.kept i hi fun hmem => hn (hids hmem)⟩

/-- What is done with new identities is nobody's concern. -/
theorem Raised.grows {k : Nat} {ids : List Nat} {l l' l'' : Ledger} (h : Raised l l')
    (h' : Grows k ids l' l'') (hids : ∀ i ∈ ids, l.nextIdentity ≤ i) : Grows k [] l l'' := by
  obtain ⟨m, hm, rfl⟩ := h
  refine ⟨h'.live, fun i hi _ => h'.kept i (Nat.lt_of_lt_of_le hi hm) fun hmem => ?_⟩
  exact Nat.not_le_of_lt hi (hids i hmem)

/-! ## Keeping subscriptions -/

/-- The subscriptions that a callback keeps. -/
def keptBy (l : Ledger) (identity : Nat) : List Nat :=
  (l.kept.lookup identity).getD []

/-- A callback keeps subscriptions, and ends those it kept before. -/
def keep (identity : Nat) (ids : List Nat) (l : Ledger) : Ledger :=
  { l with
    live := l.live.filter fun i => !(l.keptBy identity).contains i
    kept := (identity, ids) :: l.kept.filter fun e => e.1 != identity }

theorem lookup_filter_of_ne {identity i : Nat} (h : i ≠ identity) (kept : List (Nat × List Nat)) :
    (kept.filter fun e => e.1 != identity).lookup i = kept.lookup i := by
  induction kept with
  | nil => rfl
  | cons e rest ih =>
    obtain ⟨key, ids⟩ := e
    by_cases hk : key = identity
    · rw [List.filter_cons_of_neg (by simp [hk]), ih, List.lookup_cons,
        beq_false_of_ne (hk ▸ h)]
    · rw [List.filter_cons_of_pos (by simpa using hk), List.lookup_cons, List.lookup_cons, ih]

theorem lookup_kept_keep (l : Ledger) (identity : Nat) (ids : List Nat) :
    (l.keep identity ids).kept.lookup identity = some ids := by
  simp [keep]

theorem lookup_kept_keep_of_ne (l : Ledger) {identity i : Nat} (ids : List Nat)
    (h : i ≠ identity) : (l.keep identity ids).kept.lookup i = l.kept.lookup i := by
  rw [keep, List.lookup_cons, beq_false_of_ne h]
  exact lookup_filter_of_ne h l.kept

theorem IsOrderly.lt_of_mem_keptBy {l : Ledger} (h : l.IsOrderly) {identity i : Nat}
    (hi : i ∈ l.keptBy identity) : i < l.nextId := by
  rw [keptBy] at hi
  cases hk : l.kept.lookup identity with
  | none => simp [hk] at hi
  | some ids =>
    rw [hk, Option.getD_some] at hi
    obtain ⟨before, after, hmem, -⟩ := List.lookup_eq_some_iff.1 hk
    exact h.ids (identity, ids) (by simp [hmem]) i hi

theorem IsOrderly.lookup_eq_none {l : Ledger} (h : l.IsOrderly) {identity : Nat}
    (hi : l.nextIdentity ≤ identity) : l.kept.lookup identity = none := by
  rw [List.lookup_eq_none_iff]
  intro e he
  have := h.identity e he
  simp only [bne_iff_ne, ne_eq]
  omega

/-- A callback that is known may keep ids that have been given. -/
theorem later_keep {l : Ledger} {identity : Nat} {ids : List Nat} (hl : identity < l.nextIdentity)
    (hids : ∀ i ∈ ids, i < l.nextId) : Later l (l.keep identity ids) := by
  refine ⟨Nat.le_refl _, Nat.le_refl _, fun h => ⟨fun i hi => ?_, fun e he => ?_, fun e he => ?_⟩⟩
  · exact h.live i (List.mem_filter.1 hi).1
  · rcases List.mem_cons.1 he with rfl | he
    · exact hl
    · exact h.identity e (List.mem_filter.1 he).1
  · rcases List.mem_cons.1 he with rfl | he
    · exact hids
    · exact h.ids e (List.mem_filter.1 he).1

/-- A callback that keeps nothing ends nothing. -/
theorem grows_keep {l : Ledger} {identity : Nat} (h : l.kept.lookup identity = none)
    (ids : List Nat) : Grows 0 [identity] l (l.keep identity ids) := by
  refine ⟨⟨[], ?_, rfl, fun _ hi => absurd hi List.not_mem_nil⟩, fun i _ hi => ?_⟩
  · simp [keep, keptBy, h]
  · exact lookup_kept_keep_of_ne l ids (by simpa using hi)

/-- How many live subscriptions are among some ids. -/
def count (l : Ledger) (ids : List Nat) : Nat :=
  l.live.countP fun i => ids.contains i

/-- A callback replaces what it keeps: what it kept is ended, all that was added stays. -/
theorem Grows.renew {k : Nat} {l l' : Ledger} {identity : Nat} {ids : List Nat}
    (hg : Grows k [] l l') (hl : l.IsOrderly) (hi : identity < l.nextIdentity)
    (hids : ∀ i ∈ ids, l.nextId ≤ i) :
    (l'.keep identity ids).live.length + l.count (l.keptBy identity) = l.live.length + k ∧
      (l'.keep identity ids).count ids = l'.count ids := by
  obtain ⟨new, hnew, rfl, hge⟩ := hg.live
  have hkept : l'.keptBy identity = l.keptBy identity := by
    rw [keptBy, keptBy, hg.kept identity hi List.not_mem_nil]
  -- What was kept is older than all that was added.
  have hold : ∀ i, l.nextId ≤ i → (l.keptBy identity).contains i = false := by
    intro i hge
    rw [List.contains_eq_mem, decide_eq_false_iff_not]
    exact fun hmem => Nat.not_le_of_lt (hl.lt_of_mem_keptBy hmem) hge
  constructor
  · have hfilter : new.filter (fun i => !(l.keptBy identity).contains i) = new :=
      List.filter_eq_self.2 fun i hmem => by simp only [hold i (hge i hmem), Bool.not_false]
    have hsplit : l.live.length = l.live.countP (fun i => (l.keptBy identity).contains i) +
        l.live.countP (fun i => !(l.keptBy identity).contains i) := by
      simpa using List.length_eq_countP_add_countP fun i => (l.keptBy identity).contains i
    simp only [keep, hkept, hnew, List.filter_append, hfilter, List.length_append, count,
      ← List.countP_eq_length_filter]
    omega
  · simp only [count, keep, hkept, List.countP_filter]
    refine List.countP_congr fun i _ => ?_
    simp only [Bool.and_eq_true, Bool.not_eq_true', and_iff_left_iff_imp]
    intro hmem
    exact hold i (hids i (by simpa using hmem))

/-! ## More subscriptions -/

/-- A ledger with some more subscriptions, under the next ids. -/
def follow (count : Nat) (l : Ledger) : Ledger :=
  { l with
    live := l.live ++ List.range' l.nextId count
    nextId := l.nextId + count }

theorem later_follow (l : Ledger) (count : Nat) : Later l (l.follow count) := by
  refine ⟨Nat.le_add_right .., Nat.le_refl _, fun h => ⟨fun i hi => ?_, h.identity, fun e he i hi =>
    Nat.lt_of_lt_of_le (h.ids e he i hi) (Nat.le_add_right ..)⟩⟩
  rcases List.mem_append.1 hi with hi | hi
  · exact Nat.lt_of_lt_of_le (h.live i hi) (Nat.le_add_right ..)
  · exact (List.mem_range'_1.1 hi).2

theorem grows_follow (l : Ledger) (count : Nat) : Grows count [] l (l.follow count) :=
  ⟨⟨_, rfl, List.length_range', fun _ hi => (List.mem_range'_1.1 hi).1⟩, fun _ _ _ => rfl⟩

theorem count_follow {l : Ledger} (h : l.IsOrderly) (count : Nat) :
    (l.follow count).count (List.range' l.nextId count) = count := by
  have hold : l.live.countP (fun i => (List.range' l.nextId count).contains i) = 0 := by
    rw [List.countP_eq_zero]
    intro i hi hmem
    rw [List.contains_iff_mem, List.mem_range'_1] at hmem
    exact Nat.not_le_of_lt (h.live i hi) hmem.1
  have hnew : (List.range' l.nextId count).countP
      (fun i => (List.range' l.nextId count).contains i) = count := by
    rw [List.countP_eq_length.2 fun i hi => by simpa using hi, List.length_range']
  rw [Ledger.count, follow, List.countP_append, hold, hnew, Nat.zero_add]

end Ledger

/-! ## Sessions -/

theorem Root.unsubscribeAll_eq {ω : Type} (r : Root ω) (ids : List Nat) :
    r.unsubscribeAll ids =
      { r with subscriptions := r.subscriptions.filter fun z => !ids.contains z.id } := by
  induction ids generalizing r with
  | nil => simp [unsubscribeAll]
  | cons id rest ih =>
    rw [unsubscribeAll, List.foldl_cons]
    refine (ih (r.unsubscribe id)).trans ?_
    rw [unsubscribe, List.filter_filter]
    congr 1
    refine List.filter_congr fun z _ => ?_
    rw [Bool.eq_iff_iff]
    simp [and_comm]

theorem Root.subscriptions_unsubscribeAll {ω : Type} (r : Root ω) (ids : List Nat) :
    (r.unsubscribeAll ids).subscriptions = r.subscriptions.filter fun z => !ids.contains z.id := by
  rw [unsubscribeAll_eq]

theorem Root.ids_unsubscribeAll {ω : Type} (r : Root ω) (ids : List Nat) :
    (r.unsubscribeAll ids).subscriptions.map (·.id) =
      (r.subscriptions.map (·.id)).filter fun i => !ids.contains i := by
  rw [subscriptions_unsubscribeAll, List.filter_map]
  rfl

theorem Root.nextId_unsubscribeAll {ω : Type} (r : Root ω) (ids : List Nat) :
    (r.unsubscribeAll ids).nextId = r.nextId := by
  rw [unsubscribeAll_eq]

theorem Root.tree_unsubscribeAll {ω : Type} (r : Root ω) (ids : List Nat) :
    (r.unsubscribeAll ids).tree = r.tree := by
  rw [unsubscribeAll_eq]

namespace Session

theorem ledger_keep (identity : Nat) (ids : List Nat) (s : Session) :
    (s.keep identity ids).ledger = s.ledger.keep identity ids := by
  simp only [keep, ledger, Ledger.keep, Ledger.keptBy, Root.ids_unsubscribeAll,
    Root.nextId_unsubscribeAll]

theorem ledger_subscribe (segments : List String) (w : Watcher) (s : Session) :
    (s.subscribe segments w).2.ledger = s.ledger.follow 1 := by
  simp [subscribe, Root.subscribe, ledger, Ledger.follow]

theorem ledger_notify (s : Session) (told : Watcher × Node) :
    (s.notify told).ledger = s.ledger := by
  unfold notify
  cases told.1 with
  | host tag => rfl
  | level label cell =>
    change (s.followLevel label cell told.2).ledger = _
    unfold followLevel
    split
    · split <;> rfl
    · rfl
  | filter label cell o =>
    change (s.followFilter label cell o told.2).ledger = _
    unfold followFilter
    split
    · rfl
    · split <;> rfl

/-- Loading the configuration again keeps all subscriptions. -/
theorem ledger_reload {s s' : Session} (h : s.reload = .ok s') : s'.ledger = s.ledger := by
  have hfold : ∀ (told : List (Watcher × Node)) (t : Session),
      (told.foldl notify t).ledger = t.ledger := by
    intro told
    induction told with
    | nil => exact fun _ => rfl
    | cons w rest ih =>
      intro t
      rw [List.foldl_cons, ih, ledger_notify]
  simp only [reload, Root.reload, bind, Except.bind] at h
  split at h
  · cases h
  · next r hr =>
    split at hr <;> cases hr
    cases h
    exact hfold _ _

theorem isOrderly_start {h : Host} {sources : List Source} {root : Root Watcher}
    (hr : Root.load h sources = .ok root) : (start h root).ledger.IsOrderly := by
  simp only [Root.load, bind, Except.bind] at hr
  split at hr
  · cases hr
  · cases hr
    exact ⟨by simp [start, ledger, Root.empty], by simp [start, ledger], by simp [start, ledger]⟩

end Session

end LogBinder
