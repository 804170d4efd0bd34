/-
  Log binder — running callbacks again.

  A sub-logger replaces its own subscriptions when it is run again, but plans
  its section anew; the callbacks of that plan are new, so nobody ends what
  the callbacks of the plan before keep (`Binder.live_of_invoked`).  The
  ledger stays orderly in all sessions that are reached
  (`Binder.isOrderly_of_reaches`).
-/
import LogBinder.Plugin.Sample
import LogBinder.Proofs.Binding.Serving

namespace LogBinder

open Ledger (Later Grows Raised)
open Run (Returns returns_bind)

namespace Binder

variable {b : Binder} {B : Builder}

/-! ## Sessions that are reached -/

/-- The sessions that reading and following configuration reaches.  Callbacks are those that have
been made; what is not listed has nothing to do with subscriptions. -/
inductive Reaches (b : Binder) : Session → Prop
  | start {h : Host} {sources : List Source} {root : Root Watcher} :
      Root.load h sources = .ok root → Reaches b (.start h root)
  | plan {s : Session} (n : Node) : Reaches b s → Reaches b (b.plan n s).2
  | apply {s : Session} (B : Builder) (p : Plan) : Reaches b s →
      (∀ c ∈ p.steps.flatMap Step.callbacks, c.identity < s.nextIdentity) →
      Reaches b (b.apply B p s).2
  | invoke {s : Session} (B : Builder) (v : Value) : Reaches b s →
      (∀ c ∈ v.nested?, c.identity < s.nextIdentity) → Reaches b (b.invoke B v s).2
  | subscribe {s : Session} (segments : List String) (w : Watcher) : Reaches b s →
      Reaches b (s.subscribe segments w).2
  | unsubscribe {s : Session} (id : Nat) : Reaches b s →
      Reaches b { s with root := s.root.unsubscribe id }
  | reload {s s' : Session} : Reaches b s → s.reload = .ok s' → Reaches b s'
  | other {s s' : Session} : Reaches b s → s.ledger.Raised s'.ledger → Reaches b s'

theorem later_apply (hb : b.catalog.IsPassive) {p : Plan} {s : Session} (hs : s.ledger.IsOrderly)
    (hp : ∀ c ∈ p.steps.flatMap Step.callbacks, c.identity < s.nextIdentity) :
    s.ledger.Later (b.apply B p s).2.ledger := by
  have hserves := Run.serves_applySteps (b := b) (B := B) (P := fun _ => True)
    (fun v _ => serves_invoke hb v) [] p.steps fun _ _ => trivial
  have hlater := hserves.later s hs hp
  rw [apply, Plan.applyWith, Run.bind_apply]
  rcases ht : Run.applySteps B (b.invoke B) [] p.steps s with ⟨r, t⟩
  rw [ht] at hlater
  cases r with
  | error e => exact hlater
  | ok _ =>
    obtain ⟨u, hu, hledger⟩ := Watch.follows_mapM_start b.options p.watches t
    dsimp only
    rw [hu, hledger]
    exact hlater.trans (Ledger.later_follow ..)

/-- Every session that is reached has an orderly ledger, also after failures. -/
theorem isOrderly_of_reaches (hb : b.catalog.IsPassive) {s : Session} (h : b.Reaches s) :
    s.ledger.IsOrderly := by
  induction h with
  | start hr => exact Session.isOrderly_start hr
  | @plan s n _ ih => exact ((drafts_plan n).raised s).later.isOrderly ih
  | apply B p _ hp ih => exact (later_apply hb ih hp).isOrderly ih
  | @invoke s B v _ hv ih =>
    exact ((serves_invoke hb v).later s ih fun c hc => hv c (Option.mem_toList.1 hc)).isOrderly ih
  | @subscribe s segments w _ ih =>
    rw [Session.ledger_subscribe]
    exact (Ledger.later_follow ..).isOrderly ih
  | @unsubscribe s id _ ih =>
    refine ⟨fun i hi => ?_, ih.identity, ih.ids⟩
    obtain ⟨x, hx, rfl⟩ := List.mem_map.1 hi
    exact ih.live x.id (List.mem_map_of_mem (List.mem_filter.1 hx).1)
  | reload _ hr ih =>
    rw [Session.ledger_reload hr]
    exact ih
  | other _ hr ih => exact hr.later.isOrderly ih

/-! ## Invoking a callback again -/

/-- A callback has been invoked successfully a number of times by builders that run every callback,
while nobody else has subscribed or unsubscribed. -/
inductive Invoked (b : Binder) (v : Value) : Nat → Session → Session → Prop
  | zero (s : Session) : Invoked b v 0 s s
  | succ {k : Nat} {s t u u' : Session} {B : Builder} : Invoked b v k s t →
      t.ledger.Raised u.ledger → B.InvokesAll → Returns (b.invoke B v) u () u' →
      Invoked b v (k + 1) s u'

/-- What one invocation of a sub-logger does: it ends the subscriptions that it kept before, and
adds those of its section, of which it keeps its own. -/
theorem live_of_invoke (hb : b.catalog.IsPassive) (hB : B.InvokesAll) {v : Value} {c : Nested}
    (hv : v.nested? = some c) (hk : c.kind = .logger) {s s' : Session} (hs : s.ledger.IsOrderly)
    (hc : c.identity < s.nextIdentity) (h : Returns (b.invoke B v) s () s') :
    s'.ledger.live.length + s.ledger.count (s.ledger.keptBy c.identity) =
        s.ledger.live.length + b.subscriptions .logger c.node ∧
      s'.ledger.count (s'.ledger.keptBy c.identity) = c.node.watches ∧
      s.ledger.Later s'.ledger := by
  have hlater : s.ledger.Later s'.ledger := by
    refine (serves_invoke hb v).later_of_returns hs (fun d hd => ?_) h
    rw [hv, Option.toList_some, List.mem_singleton] at hd
    exact hd ▸ hc
  simp only [invoke, hv] at h
  rw [Nested.keeping] at h
  obtain ⟨ids, t, ht, h⟩ := returns_bind.1 h
  rw [if_pos hk] at h
  obtain rfl := Run.returns_modify.1 h
  have hconfigures := configures_run (B := B) hb c.kind c.node
  have hgrows := hconfigures.grows s ids t hB hs ht
  have hcount := hconfigures.count s ids t hs ht
  obtain ⟨hlive, hown⟩ := hgrows.renew hs hc fun i hi => (hconfigures.given s ids t hs ht i hi).1
  rw [Session.ledger_keep] at hlater ⊢
  refine ⟨hk ▸ hlive, ?_, hlater⟩
  rw [Ledger.keptBy, Ledger.lookup_kept_keep, Option.getD_some, hown, hcount, if_pos hk]

/-- A sub-logger callback has been invoked: it keeps the subscriptions to its own switches, and all
of them are live. -/
structure Holds (c : Nested) (s : Session) : Prop where
  isOrderly : s.ledger.IsOrderly
  known : c.identity < s.nextIdentity
  count : s.ledger.count (s.ledger.keptBy c.identity) = c.node.watches

theorem Holds.raise {c : Nested} {s s' : Session} (h : Holds c s)
    (hr : s.ledger.Raised s'.ledger) : Holds c s' := by
  refine ⟨hr.later.isOrderly h.isOrderly, Nat.lt_of_lt_of_le h.known hr.later.nextIdentity, ?_⟩
  obtain ⟨m, -, hm⟩ := hr
  rw [hm]
  exact h.count

theorem live_of_raised {s s' : Session} (hr : s.ledger.Raised s'.ledger) :
    s'.ledger.live = s.ledger.live := by
  obtain ⟨m, -, hm⟩ := hr
  rw [hm]

/-- Every further invocation adds what the callbacks of the section make. -/
theorem live_of_holds (hb : b.catalog.IsPassive) {v : Value} {c : Nested}
    (hv : v.nested? = some c) (hk : c.kind = .logger) {k : Nat} {t u : Session} (ht : Holds c t)
    (h : b.Invoked v k t u) :
    Holds c u ∧ u.ledger.live.length =
      t.ledger.live.length + k * b.nestedSubscriptions .logger c.node := by
  induction h with
  | zero => exact ⟨ht, by simp⟩
  | @succ k s t u u' B _ hr hB hu ih =>
    obtain ⟨hholds, hlen⟩ := ih ht
    replace hholds := hholds.raise hr
    obtain ⟨hlive, hcount, hlater⟩ := live_of_invoke hb hB hv hk hholds.isOrderly hholds.known hu
    refine ⟨⟨hlater.isOrderly hholds.isOrderly, ?_, hcount⟩, ?_⟩
    · exact Nat.lt_of_lt_of_le hholds.known hlater.nextIdentity
    · rw [hholds.count, subscriptions_eq, if_pos rfl, live_of_raised hr, hlen] at hlive
      rw [Nat.succ_mul]
      omega

/-- **A sub-logger that is invoked again accumulates exactly the subscriptions of the callbacks in
it.**  After the first invocation, every further one adds as many live subscriptions as the
callbacks of its section make; so the number stays what it was after the first one if and only if
those make none. -/
theorem live_of_invoked (hb : b.catalog.IsPassive) {s t u : Session} (hs : b.Reaches s) {v : Value}
    {c : Nested} (hv : v.nested? = some c) (hk : c.kind = .logger)
    (hc : c.identity < s.nextIdentity) {k : Nat} (hfirst : b.Invoked v 1 s t)
    (hmore : b.Invoked v k t u) :
    u.root.subscriptions.length =
        t.root.subscriptions.length + k * b.nestedSubscriptions .logger c.node ∧
      (u.root.subscriptions.length = t.root.subscriptions.length ↔
        k = 0 ∨ b.nestedSubscriptions .logger c.node = 0) := by
  have hholds : Holds c t := by
    cases hfirst with
    | @succ _ _ t₀ u₀ _ B h₀ hr hB ht =>
      cases h₀
      have horderly := hr.later.isOrderly (isOrderly_of_reaches hb hs)
      have hknown := Nat.lt_of_lt_of_le hc hr.later.nextIdentity
      obtain ⟨-, hcount, hlater⟩ := live_of_invoke hb hB hv hk horderly hknown ht
      exact ⟨hlater.isOrderly horderly, Nat.lt_of_lt_of_le hknown hlater.nextIdentity, hcount⟩
  have hlen : u.root.subscriptions.length =
      t.root.subscriptions.length + k * b.nestedSubscriptions .logger c.node := by
    simpa [Session.ledger] using (live_of_holds hb hv hk hholds hmore).2
  refine ⟨hlen, ?_⟩
  rw [hlen, Nat.add_eq_left, Nat.mul_eq_zero]

end Binder

/-! ## A sub-logger in a sub-logger -/

namespace Sample

/-- A reader that knows the methods that take callbacks. -/
def binder : Binder := ⟨⟨[wrappers]⟩, {}, .all, false⟩

/-- A builder that accepts every call and runs every callback. -/
def builder : Builder := ⟨fun _ _ => none, fun _ _ _ => true⟩

/-- A sub-logger whose only sink is a sub-logger with a minimum level. -/
def nestedEntries : List Entry :=
  [⟨"WriteTo:0:Name", some "Logger"⟩,
    ⟨"WriteTo:0:Args:configureLogger:WriteTo:0:Name", some "Logger"⟩,
    ⟨"WriteTo:0:Args:configureLogger:WriteTo:0:Args:configureLogger:MinimumLevel", some "Debug"⟩]

/-- The configuration of these entries. -/
def nestedRoot : Root Watcher :=
  { Root.empty with sources := [.listed "list" nestedEntries], tree := .ofEntries nestedEntries }

/-- The session after the configuration was planned. -/
def plannedSession : Session :=
  (binder.plan nestedRoot.top (.start ⟨[], []⟩ nestedRoot)).2

/-- The callback of the outer sub-logger. -/
def outerCallback : Value :=
  .callback .logger "WriteTo:0:Args:configureLogger"
    (.configures 0 (nestedRoot.node "WriteTo:0:Args:configureLogger"))

/-- The session after the callback was invoked once more. -/
def invoked (s : Session) : Session := (binder.invoke builder outerCallback s).2

theorem invoked_of_isOk {s : Session}
    (h : (binder.invoke builder outerCallback s).1.isOk = true) :
    binder.Invoked outerCallback 1 s (invoked s) := by
  refine .succ (.zero s) (.refl _) (fun _ _ _ => rfl) (B := builder) ?_
  rcases hr : binder.invoke builder outerCallback s with ⟨r, t⟩
  rw [hr] at h
  cases r with
  | error e => cases h
  | ok _ =>
    rw [invoked, hr]
    exact hr

/-- The second invocation adds the subscription of the inner sub-logger, and nobody ends the one
that the inner sub-logger of the first invocation keeps. -/
theorem live_of_invoked_nested :
    (invoked (invoked plannedSession)).root.subscriptions.length =
      (invoked plannedSession).root.subscriptions.length + 1 := by
  have hpassive : binder.catalog.IsPassive := ⟨by decide, by decide, by decide⟩
  have hload : Root.load ⟨[], []⟩ [.listed "list" nestedEntries] = .ok nestedRoot := rfl
  have hreaches : binder.Reaches plannedSession := .plan _ (.start hload)
  have hruns : binder.nestedSubscriptions .logger
        (nestedRoot.node "WriteTo:0:Args:configureLogger") = 1 ∧
      0 < plannedSession.nextIdentity ∧
      (binder.invoke builder outerCallback plannedSession).1.isOk = true ∧
      (binder.invoke builder outerCallback (invoked plannedSession)).1.isOk = true := by
    decide +kernel
  obtain ⟨hnested, hidentity, hfirst, hsecond⟩ := hruns
  have h := Binder.live_of_invoked hpassive hreaches (v := outerCallback) rfl rfl hidentity
    (invoked_of_isOk hfirst) (invoked_of_isOk hsecond)
  rw [h.1, hnested]

end Sample

end LogBinder
