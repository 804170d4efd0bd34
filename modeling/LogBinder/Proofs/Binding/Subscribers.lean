/-
  Log binder — subscribers.

  Whoever subscribes gets an id and is told of every later reload, until the
  subscription is removed.  What was done with a configuration so far says
  which subscriptions are live, and each further act goes by these.

  * `Act`, `Session.act` : subscriptions, removals, edits and reloads;
  * `liveFrom` : the subscriptions that acts leave, which are those made and
    not removed later; `made` counts those made;
  * `Replies` : what an act gives and changes, by the acts before it;
  * `Session.replies_of_load` : so it is for every act, whatever was done
    before.
-/
import LogBinder.Proofs.Binding.Following
import LogBinder.Proofs.Binding.Receivers

namespace LogBinder

/-! ## Acts -/

/-- What is done with a configuration that was loaded. -/
inductive Act where
  | subscribe (segments : List String) (watcher : Watcher)
  | unsubscribe (id : Nat)
  | edit (host : Host) (sources : List Source)
  | reload

/-- What an act gives. -/
inductive Reply where
  | subscribed (id : Nat)
  | unsubscribed (was : Bool)
  | edited
  | reloaded
  | failed (e : ConfigError)
  deriving DecidableEq

namespace Session

/-- What an act gives, and the session after it. -/
def act (s : Session) : Act → Reply × Session
  | .subscribe segments watcher =>
    let (id, t) := s.subscribe segments watcher
    (.subscribed id, t)
  | .unsubscribe id => (.unsubscribed (s.root.isLive id), { s with root := s.root.unsubscribe id })
  | .edit host sources => (.edited, s.change (.edit host sources))
  | .reload => match s.reload with
    | .ok t => (.reloaded, t)
    | .error e => (.failed e, s)

/-- The session after some acts. -/
def after (s : Session) (acts : List Act) : Session :=
  acts.foldl (fun t a => (t.act a).2) s

/-- What acts give, one after the other. -/
def replies (s : Session) : List Act → List Reply
  | [] => []
  | a :: rest => (s.act a).1 :: (s.act a).2.replies rest

end Session

/-! ## Live subscriptions -/

/-- An act removes the subscription of an id. -/
def Act.removes (id : Nat) : Act → Bool
  | .unsubscribe other => other == id
  | _ => false

/-- The number of subscriptions that acts make. -/
def made : List Act → Nat
  | [] => 0
  | .subscribe .. :: rest => made rest + 1
  | _ :: rest => made rest

/-- The subscriptions that acts make and do not remove later, in order, if ids are given from some
number on. -/
def liveFrom : Nat → List Act → List (Subscription Watcher)
  | _, [] => []
  | next, .subscribe segments watcher :: rest =>
    if rest.any (·.removes next) then liveFrom (next + 1) rest
    else ⟨next, segments, watcher⟩ :: liveFrom (next + 1) rest
  | next, _ :: rest => liveFrom next rest

section Live

variable {acts : List Act} {a : Act} {next : Nat}

theorem made_append (acts later : List Act) : made (acts ++ later) = made acts + made later := by
  induction acts with
  | nil => simp [made]
  | cons first rest ih =>
    cases first <;> simp only [List.cons_append, made, ih]
    omega

theorem any_removes_concat (acts : List Act) (a : Act) (id : Nat) :
    (acts ++ [a]).any (·.removes id) = (acts.any (·.removes id) || a.removes id) := by
  rw [List.any_append, List.any_cons, List.any_nil, Bool.or_false]

/-- An id is given once, when the subscription is made. -/
theorem bounds_of_mem_liveFrom {z : Subscription Watcher} (hz : z ∈ liveFrom next acts) :
    next ≤ z.id ∧ z.id < next + made acts := by
  induction acts generalizing next with
  | nil => cases hz
  | cons first rest ih =>
    cases first with
    | subscribe segments watcher =>
      have hrest : z ∈ liveFrom (next + 1) rest →
          next ≤ z.id ∧ z.id < next + made (.subscribe segments watcher :: rest) := by
        intro hz
        have hbounds := ih hz
        simp only [made]
        omega
      rw [liveFrom] at hz
      split at hz
      · exact hrest hz
      · rcases List.mem_cons.1 hz with rfl | hz
        · simp only [made]
          omega
        · exact hrest hz
    | _ => exact ih hz

theorem pairwise_liveFrom (next : Nat) (acts : List Act) :
    (liveFrom next acts).Pairwise fun z z' => z.id < z'.id := by
  induction acts generalizing next with
  | nil => exact .nil
  | cons first rest ih =>
    cases first with
    | subscribe segments watcher =>
      rw [liveFrom]
      split
      · exact ih (next + 1)
      · exact .cons (fun z hz => (bounds_of_mem_liveFrom hz).1) (ih (next + 1))
    | _ => exact ih next

/-- A new subscription comes last. -/
theorem liveFrom_subscribe (next : Nat) (acts : List Act) (segments : List String)
    (watcher : Watcher) :
    liveFrom next (acts ++ [.subscribe segments watcher]) =
      liveFrom next acts ++ [⟨next + made acts, segments, watcher⟩] := by
  induction acts generalizing next with
  | nil => rfl
  | cons first rest ih =>
    cases first with
    | subscribe segments' watcher' =>
      have hnext : next + made (.subscribe segments' watcher' :: rest) = next + 1 + made rest := by
        simp only [made]
        omega
      rw [List.cons_append, liveFrom, liveFrom, any_removes_concat, ih (next + 1), hnext]
      cases rest.any (·.removes next) <;> rfl
    | _ => exact ih next

/-- A removal takes the subscription of its id away, and no other one. -/
theorem liveFrom_unsubscribe (next : Nat) (acts : List Act) (id : Nat) :
    liveFrom next (acts ++ [.unsubscribe id]) =
      (liveFrom next acts).filter fun z => z.id != id := by
  induction acts generalizing next with
  | nil => rfl
  | cons first rest ih =>
    cases first with
    | subscribe segments watcher =>
      rw [List.cons_append, liveFrom, liveFrom, any_removes_concat, ih (next + 1),
        show Act.removes next (.unsubscribe id) = (id == next) from rfl]
      cases rest.any (·.removes next) with
      | true => rfl
      | false =>
        by_cases heq : id = next
        · simp [heq]
        · simp [heq, Ne.symm heq]
    | _ => exact ih next

/-- Any other act leaves the subscriptions as they are. -/
theorem liveFrom_concat (h : made [a] = 0) (hremoves : ∀ id, a.removes id = false) (next : Nat)
    (acts : List Act) : liveFrom next (acts ++ [a]) = liveFrom next acts := by
  induction acts generalizing next with
  | nil => cases a <;> simp_all [liveFrom, made]
  | cons first rest ih =>
    cases first with
    | subscribe segments watcher =>
      rw [List.cons_append, liveFrom, liveFrom, any_removes_concat, ih (next + 1), hremoves,
        Bool.or_false]
    | _ => exact ih next

end Live

/-- The subscriptions that acts leave after a configuration was loaded. -/
def live (acts : List Act) : List (Subscription Watcher) :=
  liveFrom 1 acts

/-! ## Replies -/

/-- What the host receives when a watcher is told of a node. -/
def Watcher.event? (n : Node) : Watcher → Option Event
  | host tag => some (.notified tag n)
  | _ => none

/-- What an act gives after others, and how it leaves the session. -/
inductive Replies (before : List Act) (s : Session) : Act → Reply → Session → Prop
  | subscribed {segments : List String} {watcher : Watcher} :
      Replies before s (.subscribe segments watcher) (.subscribed (made before + 1))
        { s with root := { s.root with
            subscriptions := live before ++ [⟨made before + 1, segments, watcher⟩]
            nextId := made before + 2 } }
  | removed {earlier later : List (Subscription Watcher)} {z : Subscription Watcher} :
      live before = earlier ++ z :: later →
      Replies before s (.unsubscribe z.id) (.unsubscribed true)
        { s with root := { s.root with subscriptions := earlier ++ later } }
  | absent {id : Nat} :
      (∀ z ∈ live before, z.id ≠ id) →
      Replies before s (.unsubscribe id) (.unsubscribed false) s
  | edited {host : Host} {sources : List Source} :
      Replies before s (.edit host sources) .edited
        { s with host := host, root := { s.root with sources := sources } }
  /-- All sources are loaded.  The tree is that of their entries; every live subscriber is told of
  the place in it, in order, and of these the host receives one event each. -/
  | reloaded {entries : List (List Entry)} {tree : Tree} {t : Session} :
      List.Forall₂ (fun source loaded => source.load s.host = .ok loaded) s.root.sources entries →
      tree = .ofEntries entries.flatten →
      t = (live before).foldl (fun u z => u.notify (z.watcher, ⟨tree, z.segments⟩))
        { s with root := { s.root with tree := tree } } →
      t.root = { s.root with tree := tree } →
      t.events = s.events ++ (live before).filterMap (fun z =>
        z.watcher.event? ⟨tree, z.segments⟩) →
      Replies before s .reload .reloaded t
  | failed {earlier later : List Source} {source : Source} {e : ConfigError} :
      s.root.sources = earlier ++ source :: later →
      (∀ other ∈ earlier, ∃ loaded, other.load s.host = .ok loaded) →
      source.load s.host = .error e →
      Replies before s .reload (.failed e) s

/-- The ids that were given. -/
def Reply.id? : Reply → Option Nat
  | subscribed id => some id
  | _ => none

namespace Session

variable {s t : Session} {before : List Act}

theorem events_notify (s : Session) (w : Watcher) (n : Node) :
    (s.notify (w, n)).events = s.events ++ (w.event? n).toList := by
  cases w with
  | host tag => rfl
  | level label cell =>
    simp only [notify, followLevel, Watcher.event?, Option.toList_none, List.append_nil]
    split
    · split <;> rfl
    · rfl
  | filter label cell o =>
    simp only [notify, followFilter, Watcher.event?, Option.toList_none, List.append_nil]
    split
    · rfl
    · split <;> rfl

theorem events_foldl_notify (told : List (Watcher × Node)) (s : Session) :
    (told.foldl notify s).events = s.events ++ told.filterMap fun e => e.1.event? e.2 := by
  induction told generalizing s with
  | nil => simp
  | cons first rest ih =>
    rw [List.foldl_cons, ih, events_notify, List.filterMap_cons]
    cases first.1.event? first.2 <;> simp

/-- The live subscriptions and the next id are what the acts say. -/
structure Accounts (before : List Act) (s : Session) : Prop where
  subscriptions : s.root.subscriptions = live before
  nextId : s.root.nextId = made before + 1

/-- An act that neither makes nor removes a subscription. -/
theorem Accounts.skip {a : Act} (h : s.Accounts before) (ha : made [a] = 0)
    (hremoves : ∀ id, a.removes id = false)
    (hsubscriptions : t.root.subscriptions = s.root.subscriptions)
    (hnext : t.root.nextId = s.root.nextId) : t.Accounts (before ++ [a]) where
  subscriptions := by rw [hsubscriptions, h.subscriptions, live, live, liveFrom_concat ha hremoves]
  nextId := by rw [hnext, h.nextId, made_append, ha]

theorem replies_unsubscribe (h : s.Accounts before) (id : Nat) :
    Replies before s (.unsubscribe id) (s.act (.unsubscribe id)).1 (s.act (.unsubscribe id)).2 := by
  rw [act]
  dsimp only
  by_cases hid : ∃ z ∈ live before, z.id = id
  · obtain ⟨z, hz, rfl⟩ := hid
    obtain ⟨earlier, later, hsplit⟩ := List.append_of_mem hz
    have hlive : s.root.isLive z.id = true := by
      rw [Root.isLive, h.subscriptions, List.any_eq_true]
      exact ⟨z, hz, beq_self_eq_true _⟩
    have hpairwise := pairwise_liveFrom 1 before
    rw [← live, hsplit, List.pairwise_append, List.pairwise_cons] at hpairwise
    obtain ⟨-, ⟨hlater, -⟩, hearlier⟩ := hpairwise
    -- Ids ascend, so that no other subscription has this one.
    have hrest : (live before).filter (fun z' => z'.id != z.id) = earlier ++ later := by
      rw [hsplit, List.filter_append, List.filter_cons_of_neg (by simp)]
      rw [List.filter_eq_self.2, List.filter_eq_self.2]
      · intro z' hz'
        simpa using Nat.ne_of_gt (hlater z' hz')
      · intro z' hz'
        simpa using Nat.ne_of_lt (hearlier z' hz' z (List.mem_cons_self ..))
    rw [hlive, Root.unsubscribe, h.subscriptions, hrest]
    exact .removed hsplit
  · have hnone : ∀ z ∈ live before, z.id ≠ id := fun z hz heq => hid ⟨z, hz, heq⟩
    have hlive : s.root.isLive id = false := by
      rw [Root.isLive, h.subscriptions, List.any_eq_false]
      intro z hz
      simpa using hnone z hz
    have hroot : s.root.unsubscribe id = s.root := by
      have hrest : (live before).filter (fun z => z.id != id) = live before :=
        List.filter_eq_self.2 fun z hz => by simpa using hnone z hz
      rw [Root.unsubscribe, h.subscriptions, hrest, ← h.subscriptions]
    rw [hlive, hroot]
    exact .absent hnone

theorem replies_reload (h : s.Accounts before) :
    Replies before s .reload (s.act .reload).1 (s.act .reload).2 := by
  rw [act, reload, Root.reload, Tree.ofSources]
  rcases Except.mapM_cases (fun source : Source => source.load s.host) s.root.sources with
    ⟨entries, hall, hloaded⟩ | ⟨earlier, source, later, e, hsplit, hearlier, herror, hall⟩
  · rw [hall]
    refine .reloaded hloaded rfl ?_ ?_ ?_
    · rw [← h.subscriptions]
      exact List.foldl_map ..
    · exact root_foldl_notify ..
    · rw [← h.subscriptions]
      exact (events_foldl_notify ..).trans (by rw [List.filterMap_map]; rfl)
  · rw [hall]
    exact .failed hsplit hearlier herror

/-- An act gives and changes what the acts before it say. -/
theorem replies_act (h : s.Accounts before) (a : Act) :
    Replies before s a (s.act a).1 (s.act a).2 := by
  cases a with
  | subscribe segments watcher =>
    rw [act, subscribe, Root.subscribe, h.subscriptions, h.nextId]
    exact .subscribed
  | unsubscribe id => exact replies_unsubscribe h id
  | edit host sources => exact .edited
  | reload => exact replies_reload h

/-- An act keeps the account. -/
theorem Accounts.act (h : s.Accounts before) (a : Act) : (s.act a).2.Accounts (before ++ [a]) := by
  cases a with
  | subscribe segments watcher =>
    constructor
    · rw [live, liveFrom_subscribe, ← live, ← h.subscriptions, Nat.add_comm, ← h.nextId]
      rfl
    · rw [made_append]
      exact congrArg (· + 1) h.nextId
  | unsubscribe id =>
    constructor
    · rw [live, liveFrom_unsubscribe, ← live, ← h.subscriptions]
      rfl
    · rw [made_append]
      exact h.nextId
  | edit host sources => exact h.skip rfl (fun _ => rfl) rfl rfl
  | reload =>
    have hreplies := replies_act h .reload
    generalize (s.act .reload).1 = reply, (s.act .reload).2 = t at hreplies ⊢
    cases hreplies with
    | reloaded _ _ _ hroot => exact h.skip rfl (fun _ => rfl) (by rw [hroot]) (by rw [hroot])
    | failed => exact h.skip rfl (fun _ => rfl) rfl rfl

/-- So do any acts. -/
theorem Accounts.after (h : s.Accounts before) (acts : List Act) :
    (s.after acts).Accounts (before ++ acts) := by
  induction acts generalizing s before with
  | nil => rwa [List.append_nil]
  | cons a rest ih =>
    have hrest := ih (h.act a)
    rwa [List.append_assoc] at hrest

theorem id?_act (h : s.Accounts before) (a : Act) :
    (s.act a).1.id?.toList = List.range' (made before + 1) (made [a]) := by
  cases a with
  | subscribe segments watcher =>
    rw [Session.act, subscribe, Root.subscribe, h.nextId]
    rfl
  | unsubscribe id => rfl
  | edit host sources => rfl
  | reload =>
    rw [Session.act]
    cases s.reload <;> rfl

/-- Acts give the ids one by one. -/
theorem ids_replies (h : s.Accounts before) (acts : List Act) :
    (s.replies acts).filterMap Reply.id? = List.range' (made before + 1) (made acts) := by
  induction acts generalizing s before with
  | nil => rfl
  | cons a rest ih =>
    have hmade : made (a :: rest) = made [a] + made rest := made_append [a] rest
    have hrest := ih (h.act a)
    rw [made_append, Nat.add_right_comm] at hrest
    rw [hmade, ← List.range'_append_1, ← id?_act h a, ← hrest, replies, List.filterMap_cons]
    cases (s.act a).1.id? <;> rfl

theorem count_act (h : s.Accounts before) (a : Act) :
    (s.act a).2.root.subscriptions.length + [(s.act a).1].count (.unsubscribed true) =
      s.root.subscriptions.length + made [a] := by
  have hreplies := replies_act h a
  generalize (s.act a).1 = reply, (s.act a).2 = t at hreplies ⊢
  cases hreplies with
  | subscribed => simp [made, h.subscriptions]
  | removed hsplit =>
    rw [h.subscriptions, hsplit]
    simp only [List.length_append, List.length_cons, List.count_singleton_self, made]
    omega
  | absent | edited | failed => simp [made]
  | reloaded _ _ _ hroot => simp [made, hroot]

/-- Every subscription that was made is live or was removed. -/
theorem count_replies (h : s.Accounts before) (acts : List Act) :
    (s.after acts).root.subscriptions.length + (s.replies acts).count (.unsubscribed true) =
      s.root.subscriptions.length + made acts := by
  induction acts generalizing s before with
  | nil => rfl
  | cons a rest ih =>
    have hmade : made (a :: rest) = made [a] + made rest := made_append [a] rest
    have hcount : (s.replies (a :: rest)).count (.unsubscribed true) =
        [(s.act a).1].count (.unsubscribed true) +
          ((s.act a).2.replies rest).count (.unsubscribed true) := by
      rw [← List.count_append]
      rfl
    have hact := count_act h a
    have hrest := ih (h.act a)
    change ((s.act a).2.after rest).root.subscriptions.length + _ = _
    omega

theorem accounts_start {host : Host} {sources : List Source} {r : Root Watcher}
    (h : Root.load host sources = .ok r) : (start host r).Accounts [] := by
  rw [Root.load] at h
  obtain ⟨tree, -, hr⟩ := Except.bind_eq_ok.1 h
  cases hr
  exact ⟨rfl, rfl⟩

/-- **Every live subscriber is told of every successful reload, once and in order, and of nothing
else.**  Whatever was done with a configuration since it was loaded, the live subscriptions are
those that were made and not removed later, in order; their number and that of the successful
removals add up to that of the subscriptions made; and ids were given one by one, so that none is
used again.  Any further act gives a new id, removes the subscription of an id if it is live, edits
the sources, or reloads: if all sources load, every live subscriber is told of its place in the tree
of their entries, and if one fails nothing changes. -/
theorem replies_of_load {host : Host} {sources : List Source} {r : Root Watcher}
    (h : Root.load host sources = .ok r) (before : List Act) (a : Act) :
    let start := Session.start host r
    let s := start.after before
    s.root.subscriptions = live before ∧
    s.root.subscriptions.length + (start.replies before).count (.unsubscribed true) =
      made before ∧
    (start.replies before).filterMap Reply.id? = List.range' 1 (made before) ∧
    Replies before s a (s.act a).1 (s.act a).2 := by
  have hstart := accounts_start h
  have haccounts : ((start host r).after before).Accounts before := hstart.after before
  refine ⟨haccounts.subscriptions, ?_, ids_replies hstart before, replies_act haccounts a⟩
  rw [count_replies hstart, hstart.subscriptions]
  exact Nat.zero_add _

end Session

/-! ## Two subscribers to one place -/

namespace Sample

/-- Two subscribe to a place, and one is removed, twice; then a source cannot be read, and a reload
is tried. -/
def subscriberActs : List Act :=
  [.subscribe ["A"] (.host 0), .subscribe ["A"] (.host 1), .unsubscribe 1, .unsubscribe 1,
   .edit ⟨[], []⟩ [.listed "list" [⟨"A", some "2"⟩], .failing "gone" "it is gone"], .reload,
   .edit ⟨[], []⟩ [.listed "list" [⟨"A", some "3"⟩]]]

/-- The next reload tells the other one of them. -/
theorem replies_subscriberActs :
    let start := Session.start ⟨[], []⟩ (listedRoot [⟨"A", some "1"⟩])
    let s := start.after subscriberActs
    Root.load ⟨[], []⟩ [.listed "list" [⟨"A", some "1"⟩]] = .ok (listedRoot [⟨"A", some "1"⟩]) ∧
      start.replies subscriberActs = [.subscribed 1, .subscribed 2, .unsubscribed true,
        .unsubscribed false, .edited, .failed (.unavailable "gone" "it is gone"), .edited] ∧
      s.root.subscriptions = [⟨2, ["A"], .host 1⟩] ∧
      (s.act .reload).2.events = [.notified 1 ⟨.ofEntries [⟨"A", some "3"⟩], ["A"]⟩] ∧
      Replies subscriberActs s .reload .reloaded (s.act .reload).2 := by
  intro start s
  have hload := load_listedRoot [⟨"A", some "1"⟩]
  obtain ⟨hlive, -, -, hreplies⟩ := Session.replies_of_load hload subscriberActs .reload
  exact ⟨hload, by decide +kernel, hlive, by rfl, hreplies⟩

end Sample

end LogBinder
