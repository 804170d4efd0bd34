/-
  Log binder — where the calls of plans come from.

  Every step of a plan that calls a method was made for one entry of one of
  the sections of directives: the entry holds a directive, the method is the
  one chosen for it, and its arguments were bound in the course of planning.

  * `Binder.Binds` : a step that was made for an entry of a section;
  * `Binder.binds_of_plan` : the steps of a plan.
-/
import LogBinder.Proofs.Binding.Planned

namespace LogBinder.Binder

open Run (Returns returns_bind returns_pure returns_lift)

variable {b : Binder} {n : Node} {s s' : Session}

/-- A step that was made for an entry of a section of directives, in the course of a computation
that starts in a session. -/
inductive Binds (b : Binder) (capability : Capability) (n : Node) (s : Session) : Step → Prop
  | of {e : Node} {d : Directive} {m : Method} {t : Session} {c : Call} {next : Nat}
      (he : e ∈ n.children) (hd : Directive.ofNode e = .ok d)
      (hm : Overload.select (b.candidates capability) d.name capability d.supplied = some m)
      (ht : s.Drafted t) (hc : Fresh.Yields (Call.bind (b.scope t) d m) t.nextIdentity c next) :
      Binds b capability n s (.call c d.path)

theorem Binds.of_drafted {capability : Capability} {step : Step} {t : Session}
    (h : b.Binds capability n t step) (ht : s.Drafted t) : b.Binds capability n s step := by
  cases h with
  | of he hd hm hu hc => exact .of he hd hm (ht.trans hu) hc

theorem binds_of_directives {capability : Capability} {steps : List Step}
    (h : Returns (b.directives capability n) s steps s') :
    ∀ step ∈ steps, b.Binds capability n s step := by
  intro step hstep
  rw [directives] at h
  split at h
  · rw [returns_bind] at h
    obtain ⟨ds, t, hds, h⟩ := h
    rw [returns_bind] at h
    obtain ⟨os, t', hos, h⟩ := h
    obtain ⟨hsection, rfl⟩ := returns_lift.1 hds
    obtain ⟨rfl, rfl⟩ := returns_pure.1 h
    obtain ⟨-, hall⟩ := hos.threaded.between Session.Drafted.refl Session.Drafted.trans
      fun d _ s o s' ho => (drafts_directive capability d).of_returns ho
    obtain ⟨d, hd, i, j, hi, ho, -⟩ := hall _ (List.reduceOption_mem_iff.1 hstep)
    obtain ⟨e, he, hd⟩ := Directive.exists_of_mem_ofSection hsection hd
    cases hselect : Overload.select (b.candidates capability) d.name capability d.supplied with
    | some m =>
      change Returns (b.directive capability (b.candidates capability) d) i (some step) j at ho
      simp only [directive, hselect, returns_bind] at ho
      obtain ⟨c, u, hc, ho⟩ := ho
      obtain ⟨hstep, -⟩ := returns_pure.1 ho
      cases hstep
      exact .of he hd hselect hi (yields_of_converted hc)
    | none =>
      change Returns (b.directive capability (b.candidates capability) d) i (some step) j at ho
      simp only [directive, hselect, returns_bind] at ho
      obtain ⟨_, u, -, ho⟩ := ho
      cases (returns_pure.1 ho).1
  · obtain ⟨rfl, rfl⟩ := returns_pure.1 h
    cases hstep

/-- **The steps of a plan** call no method, or were made for an entry of a section of directives. -/
theorem binds_of_plan {p : Plan} (h : Returns (b.plan n) s p s') :
    ∀ step ∈ p.steps, step.IsPlain ∨
      ∃ capability, b.Binds capability (n.child capability.sectionName) s step := by
  intro step hstep
  cases stages_of_plan h with
  | of hlevels hfilters hminimum henrichers hproperties hfiltering hpolicies hsinks haudits =>
    have h₂ := ((Run.drafts_declareSwitches ..).of_returns hlevels).trans
      ((Run.drafts_declareSwitches ..).of_returns hfilters)
    have h₃ := h₂.trans ((Run.drafts_minimumLevels _).of_returns hminimum)
    have h₄ := h₃.trans ((drafts_phase ..).of_returns henrichers)
    have h₅ := h₄.trans ((Run.drafts_properties _).of_returns hproperties)
    have h₆ := h₅.trans ((drafts_phase ..).of_returns hfiltering)
    have h₇ := h₆.trans ((drafts_phase ..).of_returns hpolicies)
    have h₈ := h₇.trans ((drafts_phase ..).of_returns hsinks)
    have hphase : ∀ {capability steps i j}, Returns (b.phase n capability) i steps j →
        step ∈ steps → s.Drafted i →
        ∃ capability, b.Binds capability (n.child capability.sectionName) s step :=
      fun hs hstep hi => ⟨_, (binds_of_directives hs step hstep).of_drafted hi⟩
    simp only [List.mem_append] at hstep
    rcases hstep with (((((hstep | hstep) | hstep) | hstep) | hstep) | hstep) | hstep
    · exact .inl ((Run.watching_minimumLevels hminimum).isPlain step hstep)
    · exact .inr (hphase henrichers hstep h₃)
    · exact .inl (Run.isPlain_of_properties hproperties step hstep)
    · exact .inr (hphase hfiltering hstep h₅)
    · exact .inr (hphase hpolicies hstep h₆)
    · exact .inr (hphase hsinks hstep h₇)
    · exact .inr (hphase haudits hstep h₈)

end LogBinder.Binder
