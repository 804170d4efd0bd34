/-
  Log binder — what conversions ask for.

  A conversion is a request, and it may ask for others on the way.  Their
  types come from the catalog and may refer to each other in circles, but
  each of them either is for a place below, or stays at the place with one
  layer of the type less.  So the requests that a request leads to end, and
  finitely many rounds of asking give what conversions give.

  * `Request` : a conversion of what stands at a node, of a text, or of a
    section; `Request.answer` is what it gives;
  * `Request.step` : one round, where all that is asked for is given;
    `Request.asks` lists what that is (`step_congr`);
  * `Request.Leads` : how a request may lead to another one;
  * `Request.exists_within` : some number of rounds suffices.
-/
import LogBinder.Proofs.Binding.Origins

namespace LogBinder

/-- What can be asked for. -/
inductive Request where
  | convert (n : Node) (target : TypeRef)
  | scalar (n : Node) (text : String) (target : TypeRef)
  | structured (n : Node) (target : TypeRef)

namespace Request

/-- How a request may lead to another one. -/
inductive Leads : Request → Request → Prop
  | scalar {n : Node} {text : String} {t : TypeRef} : Leads (.convert n t) (.scalar n text t)
  | structured {n : Node} {t : TypeRef} : Leads (.convert n t) (.structured n t)
  | present {n : Node} {text : String} {t : TypeRef} :
      Leads (.scalar n text (.nullable t)) (.scalar n text t)
  | sectioned {n : Node} {t : TypeRef} : Leads (.structured n (.nullable t)) (.structured n t)
  | below {n c : Node} {t u : TypeRef} : c.IsBelow n → Leads (.structured n t) (.convert c u)
  | key {n c : Node} {t u : TypeRef} : c.IsBelow n →
      Leads (.structured n t) (.scalar c c.key u)

variable (s : Scope)

/-- What conversions give. -/
def answer : Request → Fresh Value
  | .convert n t => s.convert n t
  | .scalar n text t => s.convertScalar n text t
  | .structured n t => s.convertSection n (fun c _ u => s.convert c u) t

/-- What the fields of an object section are converted to. -/
def asksOfObject (n : Node) (declared : String) : List Request :=
  match s.objectType n declared with
  | .error _ => []
  | .ok t => match Constructor.select t.publicConstructors (Scope.fields n) with
    | none => []
    | some fit => fit.bindings.filterMap fun b => b.2.map fun c => .convert c.1 b.1.type

/-- All that a request may ask for, whatever the answers. -/
def asks : Request → List Request
  | .convert n t =>
    if t.isImplicit then []
    else match n.form with
      | .ok (.scalar text) => [.scalar n (s.environment.expand text) t]
      | .ok .structured => [.structured n t]
      | .error _ => []
  | .scalar n text (.nullable t) => [.scalar n text t]
  | .scalar _ _ _ => []
  | .structured n (.nullable t) => [.structured n t]
  | .structured n (.array element) => n.children.map fun c => .convert c element
  | .structured n (.list _ element) => n.children.map fun c => .convert c element
  | .structured n (.dictionary _ key value) =>
    n.children.flatMap fun c => [.scalar c c.key key, .convert c value]
  | .structured n (.object declared) => asksOfObject s n declared
  | .structured _ _ => []

/-- The key of an entry of a section, if what it asks for is given. -/
def entryKey (ask : Request → Fresh Value) (c : Node) (key : TypeRef) : Fresh Value :=
  if key.isString then return .string c.key else ask (.scalar c c.key key)

/-- One round: what a request gives, if all that it asks for is given. -/
def step (ask : Request → Fresh Value) : Request → Fresh Value
  | .convert n t =>
    if t.isImplicit then s.injected t n.key n.path
    else do
      match ← n.form with
      | .scalar text => ask (.scalar n (s.environment.expand text) t)
      | .structured => ask (.structured n t)
  | .scalar n text (.nullable t) =>
    if text.isEmpty then return .null else ask (.scalar n text t)
  | .scalar n text t => s.convertScalar n text t
  | .structured n (.nullable t) => ask (.structured n t)
  | .structured n (.dictionary name key value) => do
    return .map name (← n.children.attach.mapM fun c => do
      let k ← entryKey ask c.1 key
      return (k, ← ask (.convert c.1 value)))
  | .structured n t => s.convertSection n (fun c _ u => ask (.convert c u)) t

/-- Some rounds, and then something else. -/
def within (lost : Request → Fresh Value) : Nat → Request → Fresh Value
  | 0 => lost
  | k + 1 => step s (within lost k)

/-! ## One round -/

variable {s : Scope}

/-- What conversions give satisfies one round. -/
theorem step_answer (r : Request) : step s (answer s) r = answer s r := by
  cases r with
  | convert n t =>
    rw [answer, Scope.convert, step]
    rfl
  | scalar n text t => cases t <;> rfl
  | structured n t => cases t <;> rfl

variable {f g : Request → Fresh Value} {n : Node}

theorem items_congr (element : TypeRef)
    (h : ∀ c ∈ n.children, f (.convert c element) = g (.convert c element)) :
    Scope.items n (fun c _ u => f (.convert c u)) element =
      Scope.items n (fun c _ u => g (.convert c u)) element :=
  Fresh.mapM_congr fun c _ => h c.1 c.2

theorem object_congr {declared : String} (h : ∀ r ∈ asksOfObject s n declared, f r = g r) :
    s.object n (fun c _ u => f (.convert c u)) declared =
      s.object n (fun c _ u => g (.convert c u)) declared := by
  rw [asksOfObject] at h
  rw [Scope.object, Scope.object]
  cases ht : s.objectType n declared with
  | error e => rfl
  | ok t =>
    rw [ht] at h
    dsimp only at h
    change (match Constructor.select t.publicConstructors (Scope.fields n) with
      | none => _
      | some fit => _) = (match Constructor.select t.publicConstructors (Scope.fields n) with
      | none => _
      | some fit => _)
    cases hfit : Constructor.select t.publicConstructors (Scope.fields n) with
    | none => rfl
    | some fit =>
      rw [hfit] at h
      dsimp only at h ⊢
      have hargs : fit.bindings.mapM (s.argument n fun c _ u => f (.convert c u)) =
          fit.bindings.mapM (s.argument n fun c _ u => g (.convert c u)) := by
        refine Fresh.mapM_congr ?_
        intro b hb
        rw [Scope.argument, Scope.argument]
        cases hc : b.2 with
        | none => rfl
        | some c =>
          dsimp only
          rw [h (.convert c.1 b.1.type) (List.mem_filterMap.2 ⟨b, hb, by rw [hc]; rfl⟩)]
      rw [hargs]

/-- One round depends on nothing but what is asked for. -/
theorem step_congr {r : Request} (h : ∀ r' ∈ asks s r, f r' = g r') : step s f r = step s g r := by
  cases r with
  | convert n t =>
    rw [asks] at h
    rw [step, step]
    split
    · rfl
    · next ht =>
      rw [if_neg ht] at h
      cases hform : n.form with
      | error e => rfl
      | ok shape =>
        rw [hform] at h
        cases shape with
        | scalar text => exact h _ (List.mem_singleton_self _)
        | structured => exact h _ (List.mem_singleton_self _)
  | scalar n text t =>
    cases t with
    | nullable t =>
      rw [step, step]
      split
      · rfl
      · exact h _ (List.mem_singleton_self _)
    | _ => rfl
  | structured n t =>
    cases t with
    | nullable t => exact h _ (List.mem_singleton_self _)
    | array element =>
      have hitems := items_congr element fun c hc => h _ (List.mem_map_of_mem hc)
      exact congrArg (fun x : Fresh (List Value) => x >>= fun vs => pure (Value.array vs)) hitems
    | list name element =>
      have hitems := items_congr element fun c hc => h _ (List.mem_map_of_mem hc)
      exact congrArg (fun x : Fresh (List Value) => x >>= fun vs => pure (Value.sequence name vs))
        hitems
    | dictionary name key value =>
      have hentries : ∀ c ∈ n.children, entryKey f c key = entryKey g c key ∧
          f (.convert c value) = g (.convert c value) := by
        intro c hc
        refine ⟨?_, h _ (List.mem_flatMap.2 ⟨c, hc, by simp⟩)⟩
        rw [entryKey, entryKey, h _ (List.mem_flatMap.2 ⟨c, hc, List.mem_cons_self ..⟩)]
      rw [step, step,
        Fresh.mapM_congr fun c _ => by rw [(hentries c.1 c.2).1, (hentries c.1 c.2).2]]
    | object declared => exact object_congr h
    | _ => rfl

/-! ## Rounds -/

/-- How deep a type is nullable. -/
def layers : TypeRef → Nat
  | .nullable t => layers t + 1
  | _ => 0

/-- The node of a request. -/
def place : Request → Node
  | .convert n _ | .scalar n _ _ | .structured n _ => n

/-- How much there is to do at the node of a request itself. -/
def weight : Request → Nat
  | .convert _ t => layers t + 1
  | .scalar _ _ t | .structured _ t => layers t

/-- What a request leads to is for a lower place, or leaves less to do at the same place. -/
theorem Leads.lower {r r' : Request} (h : r.Leads r') : r'.place.height < r.place.height ∨
    r'.place = r.place ∧ r'.weight < r.weight := by
  cases h with
  | scalar | structured | present | sectioned => exact .inr ⟨rfl, Nat.lt_succ_self _⟩
  | below hc | key hc => exact .inl hc.height_lt

/-- A request leads to all that it asks for. -/
theorem leads_of_mem_asks {r r' : Request} (h : r' ∈ asks s r) : r.Leads r' := by
  cases r with
  | convert n t =>
    rw [asks] at h
    split at h
    · cases h
    · split at h
      · exact List.mem_singleton.1 h ▸ .scalar
      · exact List.mem_singleton.1 h ▸ .structured
      · cases h
  | scalar n text t =>
    cases t with
    | nullable t => exact List.mem_singleton.1 h ▸ .present
    | _ => cases h
  | structured n t =>
    cases t with
    | nullable t => exact List.mem_singleton.1 h ▸ .sectioned
    | array element | list name element =>
      obtain ⟨c, hc, rfl⟩ := List.mem_map.1 h
      exact .below (Node.isBelow_of_mem_children hc)
    | dictionary name key value =>
      obtain ⟨c, hc, h⟩ := List.mem_flatMap.1 h
      have hbelow := Node.isBelow_of_mem_children hc
      rcases List.mem_cons.1 h with rfl | h
      · exact .key hbelow
      · exact List.mem_singleton.1 h ▸ .below hbelow
    | object declared =>
      rw [asks, asksOfObject] at h
      split at h
      · cases h
      · split at h
        · cases h
        · obtain ⟨b, -, hb⟩ := List.mem_filterMap.1 h
          obtain ⟨c, -, rfl⟩ := Option.map_eq_some_iff.1 hb
          exact .below (Node.isBelow_of_mem_children c.2)
    | _ => cases h

/-- What holds of a request if it holds of all that it asks for holds of every request. -/
theorem asks_induction {P : Request → Prop} (h : ∀ r, (∀ r' ∈ asks s r, P r') → P r) (r : Request) :
    P r := by
  refine h r fun r' hr' => ?_
  have hlower := (leads_of_mem_asks hr').lower
  exact asks_induction h r'
termination_by (r.place.height, r.weight)
decreasing_by
  rw [Prod.lex_def]
  rcases hlower with hlower | ⟨hplace, hweight⟩
  · exact .inl hlower
  · exact .inr ⟨congrArg Node.height hplace, hweight⟩

theorem within_add (lost : Request → Fresh Value) (j k : Nat) :
    within s lost (j + k) = within s (within s lost j) k := by
  induction k with
  | zero => rfl
  | succ k ih => rw [Nat.add_succ, within, ih, within]

/-- If each of some requests needs some number of rounds, some number suffices for all of them. -/
theorem exists_within_all {rs : List Request}
    (h : ∀ r ∈ rs, ∃ k, ∀ lost, within s lost k r = answer s r) :
    ∃ k, ∀ r ∈ rs, ∀ lost, within s lost k r = answer s r := by
  induction rs with
  | nil => exact ⟨0, fun r hr => absurd hr List.not_mem_nil⟩
  | cons r rest ih =>
    obtain ⟨j, hj⟩ := h r (List.mem_cons_self ..)
    obtain ⟨k, hk⟩ := ih fun r' hr' => h r' (List.mem_cons_of_mem _ hr')
    refine ⟨j + k, ?_⟩
    intro r' hr' lost
    rcases List.mem_cons.1 hr' with rfl | hr'
    · rw [Nat.add_comm, within_add]
      exact hj _
    · rw [within_add]
      exact hk r' hr' _

/-- **Finitely many rounds of asking give what conversions give**, whatever is lost when the rounds
are over. -/
theorem exists_within (r : Request) : ∃ k, ∀ lost, within s lost k r = answer s r := by
  induction r using asks_induction (s := s) with
  | h r hasked =>
    obtain ⟨k, hk⟩ := exists_within_all hasked
    refine ⟨k + 1, ?_⟩
    intro lost
    rw [within, step_congr fun r' hr' => hk r' hr' lost, step_answer]

end Request

end LogBinder
