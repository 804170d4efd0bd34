/-
  Log binder — what a failure leaves behind.

  When configuring a section fails, none of the section's own switches
  follows its entry.  But sub-loggers that were run before the failure follow
  theirs, and nobody ends their subscriptions: what is left over is what the
  callbacks that were made in the course of the failed run keep at its end.

  * `Ledger.IsOrderly` holds in every session that is attained, and pending
    plans carry known callbacks (`Binder.orderly_of_attains`);
  * `Session.Tally` : subscriptions added since some session are balanced by
    what new callbacks keep;
  * `Binder.leftover_of_failed` : what a failed run leaves behind.
-/
import LogBinder.Proofs.Binding.Attained

namespace LogBinder

open Ledger (Later)
open Run (Returns returns_bind returns_pure)

/-! ## Tables of what is kept -/

namespace Kept

variable {table : List (Nat × List Nat)} {key : Nat}

/-- All ids in a table. -/
def ids (table : List (Nat × List Nat)) : List Nat := table.flatMap (·.2)

/-- The ids under a key. -/
def under (key : Nat) (table : List (Nat × List Nat)) : List Nat := (table.lookup key).getD []

theorem subset_ids (key : Nat) (table : List (Nat × List Nat)) : under key table ⊆ ids table := by
  intro i hi
  rw [under] at hi
  cases hlookup : table.lookup key with
  | none => simp [hlookup] at hi
  | some found =>
    rw [hlookup, Option.getD_some] at hi
    obtain ⟨before, after, hmem, -⟩ := List.lookup_eq_some_iff.1 hlookup
    exact List.mem_flatMap.2 ⟨(key, found), by simp [hmem], hi⟩

/-- To take the ids under a key from all ids is to drop the key, if keys and ids are distinct. -/
theorem filter_ids (hkeys : (table.map (·.1)).Nodup) (hids : (ids table).Nodup) :
    (ids table).filter (fun i => !(under key table).contains i) =
      ids (table.filter fun e => e.1 != key) := by
  induction table with
  | nil => rfl
  | cons e rest ih =>
    obtain ⟨own, found⟩ := e
    rw [List.map_cons, List.nodup_cons] at hkeys
    obtain ⟨-, hrest, hdisjoint⟩ := List.nodup_append.1 hids
    rw [ids, List.flatMap_cons, List.filter_append, under, List.lookup_cons]
    by_cases hk : own = key
    · subst hk
      have hother : rest.filter (fun e => e.1 != own) = rest := by
        refine List.filter_eq_self.2 fun e he => bne_iff_ne.2 fun heq => hkeys.1 ?_
        exact List.mem_map.2 ⟨e, he, heq⟩
      rw [beq_self_eq_true, List.filter_cons_of_neg (by simp), hother]
      rw [List.filter_eq_nil_iff.2 (by simp), List.nil_append, ids]
      refine List.filter_eq_self.2 ?_
      intro i hi
      simpa using fun hmem => hdisjoint i hmem i hi rfl
    · have hne : (key == own) = false := beq_false_of_ne (Ne.symm hk)
      rw [hne, List.filter_cons_of_pos (by simpa using hk), ids, List.flatMap_cons]
      congr 1
      · refine List.filter_eq_self.2 ?_
        intro i hi
        have hout : i ∉ under key rest := fun hmem =>
          hdisjoint i hi i (subset_ids key rest hmem) rfl
        simpa [under] using hout
      · exact ih hkeys.2 hrest

theorem lookup_filter_ge {floor : Nat} (h : floor ≤ key) (table : List (Nat × List Nat)) :
    (table.filter fun e => decide (floor ≤ e.1)).lookup key = table.lookup key := by
  induction table with
  | nil => rfl
  | cons e rest ih =>
    obtain ⟨own, found⟩ := e
    by_cases hk : floor ≤ own
    · rw [List.filter_cons_of_pos (by simpa using hk), List.lookup_cons, List.lookup_cons, ih]
    · have hne : (key == own) = false := beq_false_of_ne (by omega)
      rw [List.filter_cons_of_neg (by simpa using hk), List.lookup_cons, hne, ih]

end Kept

/-! ## Orderly sessions -/

theorem Watch.Started.ledger {o : Options} {ws : List Watch} {s t : Session} {ids : List Nat}
    (h : Started o ws s ids t) : t.ledger = s.ledger.follow ws.length := by
  obtain ⟨events, rfl⟩ := h.rest
  simp only [Session.ledger, Session.following, Ledger.follow, List.map_append, subscriptions,
    List.map_map, List.length_map, List.length_zipIdx]
  congr 2
  exact List.zipIdx_map_snd ..

theorem Watch.Started.nextId {o : Options} {ws : List Watch} {s t : Session} {ids : List Nat}
    (h : Started o ws s ids t) : t.root.nextId = s.root.nextId + ws.length :=
  congrArg Ledger.nextId h.ledger

theorem Watch.Started.kept {o : Options} {ws : List Watch} {s t : Session} {ids : List Nat}
    (h : Started o ws s ids t) : t.kept = s.kept :=
  congrArg Ledger.kept h.ledger

theorem Watch.Started.exists_new {o : Options} {ws : List Watch} {s t : Session} {ids : List Nat}
    (h : Started o ws s ids t) :
    ∃ new, t.root.subscriptions = s.root.subscriptions ++ new ∧ new.map (·.id) = ids := by
  have hlive := congrArg Ledger.live h.ledger
  obtain ⟨hids, events, rfl⟩ := h
  refine ⟨_, rfl, ?_⟩
  rw [hids]
  rw [Session.ledger, Session.following, List.map_append] at hlive
  exact List.append_cancel_left hlive

theorem Nested.ledger_kept (c : Nested) (ids : List Nat) (s : Session) : (c.kept ids s).ledger =
    if c.kind = .logger then s.ledger.keep c.identity ids else s.ledger := by
  rw [kept]
  split
  · exact Session.ledger_keep ..
  · rfl

/-- A callback has been made. -/
def Session.Made (s : Session) (c : Nested) : Prop := c.identity < s.nextIdentity

namespace Binder

variable {b : Binder}

/-- A callback has been made since an earlier session. -/
def MadeSince (s₀ s : Session) (c : Nested) : Prop :=
  s₀.nextIdentity ≤ c.identity ∧ c.identity < s.nextIdentity

section Planned

variable {kind : CallbackKind} {n : Node} {s t : Session} {p : Plan}

/-- If the catalog holds no callbacks, those that a plan hands on have been made with it. -/
theorem madeSince_of_planOf (hb : b.catalog.IsInert) (hplan : Returns (b.planOf kind n) s p t) :
    ∀ v, Step.AnyCarries p.steps v → Service.Allows (MadeSince s) t v := by
  intro v hv d hd
  rcases nested_of_planOf hplan hv hd with hheld | ⟨-, hmade⟩
  · exact absurd hd (hb.nested?_ne hheld d)
  · exact hmade

theorem madeSince_of_plan (hb : b.catalog.IsInert) (hplan : Returns (b.plan n) s p t) :
    ∀ v, Step.AnyCarries p.steps v → Service.Allows (MadeSince s) t v := by
  have hlogger : Returns (b.planOf .logger n) s p t := hplan
  exact madeSince_of_planOf hb hlogger

end Planned

/-- Runs of callbacks that have been made keep the ledger orderly. -/
theorem service_later (hb : b.catalog.IsInert) :
    Service b (fun s t => s.ledger.Later t.ledger) Session.Made where
  refl s := .refl s.ledger
  trans h h' := h.trans h'
  allows hst hc := Nat.lt_of_lt_of_le hc hst.nextIdentity
  records s _ := .refl s.ledger
  planned {s c} _ := ((drafts_planOf c.kind c.node).raised s).later
  handed _ hplan hv hd := (madeSince_of_planOf hb hplan _ hv _ hd).2
  completed {s t u v c p ids} hc hplan hserved hstarted := by
    have hraised := ((drafts_planOf c.kind c.node).of_returns hplan).raised.later
    have hlater := (hraised.trans hserved).trans (Ledger.later_follow u.ledger p.watches.length)
    rw [← hstarted.ledger] at hlater
    rw [Nested.ledger_kept]
    split
    · refine hlater.trans (Ledger.later_keep (Nat.lt_of_lt_of_le hc hlater.nextIdentity) ?_)
      intro i hi
      rw [hstarted.ids] at hi
      rw [hstarted.ledger]
      exact (List.mem_range'_1.1 hi).2
    · exact hlater

end Binder

/-! ## Sessions that are attained -/

/-- Ids and identities in use have been given, also those of callbacks of pending plans. -/
structure Session.Orderly (s : Session) (ps : List Plan) : Prop where
  ledger : s.ledger.IsOrderly
  pending : ∀ p ∈ ps, ∀ v, Step.AnyCarries p.steps v → Service.Allows Made s v

namespace Session

variable {s t : Session} {ps qs : List Plan}

theorem Orderly.later (h : s.Orderly ps) (hst : s.ledger.Later t.ledger) (hqs : qs ⊆ ps) :
    t.Orderly qs :=
  ⟨hst.isOrderly h.ledger, fun p hp v hv c hc =>
    Nat.lt_of_lt_of_le (h.pending p (hqs hp) v hv c hc) hst.nextIdentity⟩

theorem ledger_change (s : Session) (c : Change) : (s.change c).ledger = s.ledger := by
  cases c with
  | edit host sources => rfl
  | reload =>
    rw [change]
    split
    · next t ht => exact ledger_reload ht
    · rfl

end Session

namespace Binder

open Session (Orderly)

variable {b : Binder}

theorem later_applyFor (hb : b.catalog.IsInert) {σ : Type} (R : Receiver σ) (memory : σ) {p : Plan}
    {s : Session} (hp : ∀ v, Step.AnyCarries p.steps v → Service.Allows Session.Made s v) :
    s.ledger.Later (b.applyFor R p memory s).2.ledger := by
  rcases (service_later hb).applyFor (R := R) hp memory with
    ⟨e, after, t, hfailed, ht⟩ | ⟨ids, after, u, t, happlied, hu, hstarted⟩
  · rw [hfailed]
    exact ht
  · rw [happlied]
    dsimp only
    rw [hstarted.ledger]
    exact hu.trans (Ledger.later_follow ..)

/-- Every session that is attained is orderly. -/
theorem orderly_of_attains (hb : b.catalog.IsInert) {s : Session} {ps : List Plan}
    (h : b.Attains s ps) : s.Orderly ps := by
  induction h with
  | start hr => exact ⟨Session.isOrderly_start hr, by simp⟩
  | draft _ hst ih => exact ih.later hst.raised.later fun _ hp => hp
  | @plan s t ps n p _ hplan ih =>
    have hdrafted := (drafts_plan n).of_returns hplan
    have hold := ih.later hdrafted.raised.later fun _ hp => hp
    refine ⟨hold.ledger, ?_⟩
    intro q hq v hv c hc
    rcases List.mem_cons.1 hq with rfl | hq
    · exact (madeSince_of_plan hb hplan v hv c hc).2
    · exact hold.pending q hq v hv c hc
  | @apply s qs rs p σ R memory _ ih =>
    refine ih.later (later_applyFor hb R memory (ih.pending p (by simp))) ?_
    intro q hq
    rcases List.mem_append.1 hq with hq | hq
    · exact List.mem_append_left _ hq
    · exact List.mem_append_right _ (List.mem_cons_of_mem _ hq)
  | invoke R v memory _ hv ih =>
    exact ih.later ((service_later hb).invokeFor v memory _ hv) fun _ hp => hp
  | change c _ ih =>
    exact ih.later (by rw [Session.ledger_change]; exact .refl _) fun _ hp => hp
  | setLevel | setFilter => next ih => exact ih.later (.refl _) fun _ hp => hp
  | subscribe segments tag _ ih =>
    refine ih.later ?_ fun _ hp => hp
    rw [Session.ledger_subscribe]
    exact Ledger.later_follow ..
  | unsubscribe id _ ih =>
    refine ⟨⟨fun i hi => ?_, ih.ledger.identity, ih.ledger.ids⟩, ih.pending⟩
    obtain ⟨x, hx, rfl⟩ := List.mem_map.1 hi
    exact ih.ledger.live x.id (List.mem_map_of_mem (List.mem_filter.1 hx).1)

end Binder

/-! ## What new callbacks keep -/

namespace Session

variable {s₀ s t u v : Session}

/-- What the callbacks keep whose identities are not below a number. -/
def keptSince (floor : Nat) (s : Session) : List (Nat × List Nat) :=
  s.kept.filter fun e => decide (floor ≤ e.1)

/-- Since an earlier session, subscriptions have been added that are balanced by what new callbacks
keep. -/
structure Tally (s₀ s : Session) : Prop where
  nextId : s₀.root.nextId ≤ s.root.nextId
  live : ∃ left, s.root.subscriptions = s₀.root.subscriptions ++ left ∧
    (left.map (·.id)).Perm (Kept.ids (s.keptSince s₀.nextIdentity))
  ids : ∀ i ∈ Kept.ids (s.keptSince s₀.nextIdentity), s₀.root.nextId ≤ i ∧ i < s.root.nextId
  nodup : (Kept.ids (s.keptSince s₀.nextIdentity)).Nodup
  keys : ((s.keptSince s₀.nextIdentity).map (·.1)).Nodup

/-- At first nobody keeps anything. -/
theorem tally_refl (h : s₀.ledger.IsOrderly) : s₀.Tally s₀ := by
  have hnone : s₀.keptSince s₀.nextIdentity = [] := by
    refine List.filter_eq_nil_iff.2 ?_
    intro e he
    have hlt : e.1 < s₀.nextIdentity := h.identity e he
    simpa using hlt
  refine ⟨Nat.le_refl _, ⟨[], by simp, by simp [hnone, Kept.ids]⟩, ?_, ?_, ?_⟩
  · simp [hnone, Kept.ids]
  · simp [hnone, Kept.ids]
  · simp [hnone]

theorem Tally.of_eq (h : s₀.Tally s) (hlive : t.root.subscriptions = s.root.subscriptions)
    (hnext : t.root.nextId = s.root.nextId) (hkept : t.kept = s.kept) : s₀.Tally t := by
  have hsince : t.keptSince s₀.nextIdentity = s.keptSince s₀.nextIdentity := by
    rw [keptSince, hkept, keptSince]
  refine ⟨?_, ?_, ?_, hsince ▸ h.nodup, hsince ▸ h.keys⟩
  · rw [hnext]
    exact h.nextId
  · rw [hlive, hsince]
    exact h.live
  · rw [hnext, hsince]
    exact h.ids

theorem Tally.draft (h : s₀.Tally s) (hst : s.Drafted t) : s₀.Tally t :=
  h.of_eq (by rw [hst.root]) (by rw [hst.root]) hst.kept

/-- Nobody new watches. -/
theorem Tally.started_nil (h : s₀.Tally u) {o : Options} {ids : List Nat}
    (hstarted : Watch.Started o [] u ids v) : s₀.Tally v := by
  obtain ⟨events, rfl⟩ := hstarted.rest
  exact h.of_eq (List.append_nil _) rfl rfl

theorem keptSince_keep {floor identity : Nat} (h : floor ≤ identity) (ids : List Nat)
    (s : Session) : (s.keep identity ids).keptSince floor =
      (identity, ids) :: (s.keptSince floor).filter fun e => e.1 != identity := by
  rw [keptSince, keep, List.filter_cons_of_pos (by simpa using h), keptSince, List.filter_filter,
    List.filter_filter]
  simp only [Bool.and_comm]

theorem subscriptions_keep {floor identity : Nat} (h : floor ≤ identity) (ids : List Nat)
    (s : Session) : (s.keep identity ids).root.subscriptions = s.root.subscriptions.filter fun z =>
      !(Kept.under identity (s.keptSince floor)).contains z.id := by
  rw [keep, Root.subscriptions_unsubscribeAll, Kept.under, keptSince, Kept.lookup_filter_ge h]

section Renew

variable {o : Options} {ws : List Watch} {ids : List Nat} {identity : Nat}

/-- What a callback keeps is ended when it is run again. -/
def isEnded (floor identity : Nat) (s : Session) (i : Nat) : Bool :=
  (Kept.under identity (s.keptSince floor)).contains i

/-- Old and newer subscriptions live on. -/
theorem Tally.isEnded_eq_false (h : s₀.Tally u) {i : Nat}
    (hi : i < s₀.root.nextId ∨ u.root.nextId ≤ i) :
    u.isEnded s₀.nextIdentity identity i = false := by
  refine Bool.eq_false_iff.2 ?_
  intro hended
  have hunder : i ∈ Kept.under identity (u.keptSince s₀.nextIdentity) := by
    simpa [isEnded] using hended
  have hbounds := h.ids i (Kept.subset_ids _ _ hunder)
  omega

theorem bounds_of_started (h : Watch.Started o ws u ids v) :
    ∀ i ∈ ids, u.root.nextId ≤ i ∧ i < v.root.nextId := by
  intro i hi
  rw [h.ids] at hi
  rw [h.nextId]
  exact List.mem_range'_1.1 hi

/-- It keeps its new subscriptions then; the others keep what they kept. -/
theorem Tally.ids_renew (h : s₀.Tally u) (hstarted : Watch.Started o ws u ids v)
    (hidentity : s₀.nextIdentity ≤ identity) :
    Kept.ids ((v.keep identity ids).keptSince s₀.nextIdentity) =
      ids ++ (Kept.ids (u.keptSince s₀.nextIdentity)).filter fun i =>
        !u.isEnded s₀.nextIdentity identity i := by
  have hsince : v.keptSince s₀.nextIdentity = u.keptSince s₀.nextIdentity := by
    rw [keptSince, hstarted.kept, keptSince]
  have hkeep := keptSince_keep hidentity ids v
  rw [hsince] at hkeep
  simp only [isEnded]
  rw [hkeep, Kept.filter_ids h.keys h.nodup]
  rfl

/-- Only what it kept is ended, and that is not older than the first session. -/
theorem Tally.live_renew (h₀ : s₀.ledger.IsOrderly) (h : s₀.Tally u)
    (hstarted : Watch.Started o ws u ids v) (hidentity : s₀.nextIdentity ≤ identity)
    {left : List (Subscription Watcher)}
    (hlive : u.root.subscriptions = s₀.root.subscriptions ++ left) :
    ∃ new, new.map (·.id) = ids ∧ (v.keep identity ids).root.subscriptions =
      s₀.root.subscriptions ++
        (left.filter (fun z => !u.isEnded s₀.nextIdentity identity z.id) ++ new) := by
  obtain ⟨new, hsubscriptions, hnew⟩ := hstarted.exists_new
  have hsince : v.keptSince s₀.nextIdentity = u.keptSince s₀.nextIdentity := by
    rw [keptSince, hstarted.kept, keptSince]
  have hold : ∀ z ∈ s₀.root.subscriptions,
      (!u.isEnded s₀.nextIdentity identity z.id) = true := by
    intro z hz
    have hlt : z.id < s₀.root.nextId := h₀.live z.id (List.mem_map_of_mem hz)
    rw [h.isEnded_eq_false (.inl hlt), Bool.not_false]
  have hadded : ∀ z ∈ new, (!u.isEnded s₀.nextIdentity identity z.id) = true := by
    intro z hz
    have hge := (bounds_of_started hstarted z.id (hnew ▸ List.mem_map_of_mem hz)).1
    rw [h.isEnded_eq_false (.inr hge), Bool.not_false]
  refine ⟨new, hnew, ?_⟩
  rw [subscriptions_keep hidentity, hsince, hsubscriptions, hlive]
  change List.filter (fun z : Subscription Watcher =>
    !u.isEnded s₀.nextIdentity identity z.id) _ = _
  rw [List.filter_append, List.filter_append, List.filter_eq_self.2 hold,
    List.filter_eq_self.2 hadded, List.append_assoc]

/-- A new callback that follows new switches keeps exactly its subscriptions to them. -/
theorem Tally.renew (h₀ : s₀.ledger.IsOrderly) (h : s₀.Tally u)
    (hstarted : Watch.Started o ws u ids v) (hidentity : s₀.nextIdentity ≤ identity) :
    s₀.Tally (v.keep identity ids) := by
  have hids := h.ids_renew hstarted hidentity
  have hfresh := bounds_of_started hstarted
  have hmonotone : u.root.nextId ≤ v.root.nextId := by
    rw [hstarted.nextId]
    exact Nat.le_add_right ..
  have hnextId : (v.keep identity ids).root.nextId = v.root.nextId := Root.nextId_unsubscribeAll ..
  constructor
  case nextId =>
    rw [hnextId]
    exact Nat.le_trans h.nextId hmonotone
  case live =>
    obtain ⟨left, hlive, hperm⟩ := h.live
    obtain ⟨new, hnew, hrenewed⟩ := h.live_renew h₀ hstarted hidentity hlive
    refine ⟨_, hrenewed, ?_⟩
    have hmap : (left.filter fun z => !u.isEnded s₀.nextIdentity identity z.id).map (·.id) =
        (left.map (·.id)).filter fun i => !u.isEnded s₀.nextIdentity identity i := by
      rw [List.filter_map]
      rfl
    rw [hids, List.map_append, hnew, hmap]
    exact ((hperm.filter _).append_right ids).trans List.perm_append_comm
  case ids =>
    intro i hi
    rw [hids] at hi
    rw [hnextId]
    rcases List.mem_append.1 hi with hi | hi
    · have := hfresh i hi
      have := h.nextId
      omega
    · have := h.ids i (List.mem_filter.1 hi).1
      omega
  case nodup =>
    rw [hids]
    refine List.nodup_append.2 ⟨?_, h.nodup.filter _, ?_⟩
    · rw [hstarted.ids]
      exact List.nodup_range'
    · rintro i hi _ hj rfl
      have := hfresh i hi
      have := h.ids i (List.mem_filter.1 hj).1
      omega
  case keys =>
    rw [keptSince_keep hidentity, List.map_cons, List.nodup_cons, keptSince, hstarted.kept]
    refine ⟨?_, h.keys.sublist (List.filter_sublist.map _)⟩
    intro hmem
    obtain ⟨e, he, heq⟩ := List.mem_map.1 hmem
    exact bne_iff_ne.1 (List.mem_filter.1 he).2 heq

end Renew

end Session

/-! ## Failures -/

namespace Binder

open Session (Tally)

variable {b : Binder} {σ : Type} {s₀ s t : Session}

theorem watches_planOf {kind : CallbackKind} {n : Node} {p : Plan} (hkind : kind ≠ .logger)
    (h : Returns (b.planOf kind n) s p t) : p.watches = [] := by
  cases kind with
  | logger => exact absurd rfl hkind
  | other name =>
    obtain ⟨rfl, -⟩ := returns_pure.1 h
    rfl
  | _ =>
    obtain ⟨steps, u, -, h⟩ := returns_bind.1 h
    obtain ⟨rfl, -⟩ := returns_pure.1 h
    rfl

/-- Runs of new callbacks keep the tally. -/
theorem service_tally (hb : b.catalog.IsInert) (h₀ : s₀.ledger.IsOrderly) :
    Service b (fun s t => (s₀.Tally s → s₀.Tally t) ∧ s.nextIdentity ≤ t.nextIdentity)
      (MadeSince s₀) where
  refl s := ⟨id, Nat.le_refl _⟩
  trans h h' := ⟨fun hs => h'.1 (h.1 hs), Nat.le_trans h.2 h'.2⟩
  allows hst hc := ⟨hc.1, Nat.lt_of_lt_of_le hc.2 hst.2⟩
  records s _ := ⟨fun hs => ⟨hs.nextId, hs.live, hs.ids, hs.nodup, hs.keys⟩, Nat.le_refl _⟩
  planned {s c} _ :=
    have hdrafted := (drafts_planOf (b := b) c.kind c.node).drafted s
    ⟨fun hs => hs.draft hdrafted, hdrafted.nextIdentity⟩
  handed hc hplan hv hd := by
    obtain ⟨hge, hlt⟩ := madeSince_of_planOf hb hplan _ hv _ hd
    exact ⟨Nat.le_trans (Nat.le_trans hc.1 (Nat.le_of_lt hc.2)) hge, hlt⟩
  completed {s t u v c p ids} hc hplan hserved hstarted := by
    have hdrafted := (drafts_planOf c.kind c.node).of_returns hplan
    have hidentity : v.nextIdentity = u.nextIdentity := congrArg Ledger.nextIdentity hstarted.ledger
    have hmonotone := Nat.le_trans hdrafted.nextIdentity hserved.2
    by_cases hkind : c.kind = .logger
    · rw [Nested.kept, if_pos hkind]
      exact ⟨fun hs => (hserved.1 (hs.draft hdrafted)).renew h₀ hstarted hc.1,
        Nat.le_trans hmonotone (Nat.le_of_eq hidentity.symm)⟩
    · rw [watches_planOf hkind hplan] at hstarted
      rw [Nested.kept, if_neg hkind]
      exact ⟨fun hs => (hserved.1 (hs.draft hdrafted)).started_nil hstarted,
        Nat.le_trans hmonotone (Nat.le_of_eq hidentity.symm)⟩

theorem tally_of_failed (hb : b.catalog.IsInert) (h₀ : s.ledger.IsOrderly) {R : Receiver σ}
    {n : Node} {memory after : σ} {e : ResolveError}
    (hfailed : b.configureFor R n memory s = ((.error e, after), t)) : s.Tally t := by
  have hdrafted := (drafts_plan (b := b) n).drafted s
  rcases (service_tally hb h₀).configureFor (R := R)
      ⟨fun hs => hs.draft hdrafted, hdrafted.nextIdentity⟩ (madeSince_of_plan hb) memory with
    ⟨e', after', u, hfailed', hu, -⟩ | ⟨p, u, ids, after', w, v, hsucceeded, -⟩
  · rw [hfailed] at hfailed'
    cases hfailed'
    exact hu (Session.tally_refl h₀)
  · rw [hfailed] at hsucceeded
    cases hsucceeded

/-- **What a failure leaves behind.**  When configuring a section fails, all earlier subscriptions
are live, in order, and those that were added are exactly the ones that callbacks keep which were
made in the course of the failed run.  So the live subscriptions are the same as before if and only
if no new callback keeps any. -/
theorem leftover_of_failed (hb : b.catalog.IsInert) {ps : List Plan} (h : b.Attains s ps)
    {R : Receiver σ} {n : Node} {memory after : σ} {e : ResolveError}
    (hfailed : b.configureFor R n memory s = ((.error e, after), t)) :
    (∃ left, t.root.subscriptions = s.root.subscriptions ++ left ∧
      (left.map (·.id)).Perm (Kept.ids (t.keptSince s.nextIdentity))) ∧
    (t.root.subscriptions = s.root.subscriptions ↔
      ∀ kept ∈ t.keptSince s.nextIdentity, kept.2 = []) := by
  obtain ⟨left, hlive, hperm⟩ := (tally_of_failed hb (orderly_of_attains hb h).ledger hfailed).live
  refine ⟨⟨left, hlive, hperm⟩, ?_⟩
  calc t.root.subscriptions = s.root.subscriptions
    _ ↔ left = [] := by rw [hlive, List.append_right_eq_self]
    _ ↔ left.map (·.id) = [] := List.map_eq_nil_iff.symm
    _ ↔ Kept.ids (t.keptSince s.nextIdentity) = [] :=
      ⟨fun hnil => List.nil_perm.1 (hnil ▸ hperm), fun hnil => List.perm_nil.1 (hnil ▸ hperm)⟩
    _ ↔ ∀ kept ∈ t.keptSince s.nextIdentity, kept.2 = [] := List.flatMap_eq_nil_iff

end Binder

/-! ## A sub-logger before a call that is refused -/

namespace Sample

/-- A reader that knows methods that take callbacks, and one that nobody accepts. -/
def refusedBinder : Binder :=
  ⟨⟨[wrappers, .of "Sample.Refused" [.of "Reject" .sink []] []]⟩, {}, .all, false⟩

/-- A builder that refuses the method that nobody accepts, and runs every callback. -/
def refusingReceiver : Receiver Unit := Builder.receiver
  ⟨fun _ c => if c.method.name = "Reject" then some "not accepted" else none, fun _ _ _ => true⟩

/-- A sub-logger with a minimum level, and a sink that is refused. -/
def refusedEntries : List Entry :=
  [⟨"WriteTo:0:Name", some "Logger"⟩,
    ⟨"WriteTo:0:Args:configureLogger:MinimumLevel", some "Debug"⟩, ⟨"WriteTo:1", some "Reject"⟩]

/-- The outcome of configuring it. -/
def refusedOutcome : Outcome Unit (List Nat) × Session :=
  refusedBinder.configureFor refusingReceiver (listedRoot refusedEntries).top ()
    (.start ⟨[], []⟩ (listedRoot refusedEntries))

/-- The sub-logger still follows its minimum level. -/
theorem leftover_refusedOutcome :
    refusedOutcome.1.1.isOk = false ∧ refusedOutcome.2.root.subscriptions.length = 1 := by
  have hinert : refusedBinder.catalog.IsInert := fun v hv =>
    absurd hv (Catalog.not_holds (by decide) (by decide) v)
  have hfails : refusedOutcome.1.1.isOk = false := by decide +kernel
  have hkept : refusedOutcome.2.keptSince 0 = [(0, [1])] := by decide +kernel
  refine ⟨hfails, ?_⟩
  obtain ⟨e, hfailed⟩ : ∃ e, refusedOutcome = ((.error e, ()), refusedOutcome.2) := by
    rcases houtcome : refusedOutcome with ⟨⟨r, _⟩, t⟩
    rw [houtcome] at hfails
    cases r with
    | error e => exact ⟨e, rfl⟩
    | ok ids => cases hfails
  obtain ⟨⟨left, hlive, hperm⟩, -⟩ := Binder.leftover_of_failed hinert
    (.start (load_listedRoot refusedEntries)) hfailed
  have hlength := hperm.length_eq
  rw [show (Session.start _ _).nextIdentity = 0 from rfl, hkept] at hlength
  rw [List.length_map] at hlength
  rw [hlive, List.length_append, hlength]
  rfl

end Sample

end LogBinder
