import Mathlib.Logic.Relation
import Wiring.Proofs.Accounts
import Wiring.Proofs.Judgements
import Wiring.Proofs.Layers

/-!
# Processing at startup

The main plan is marked for processing just if some method calls for it that no rule takes before it is asked,
be the method claimed in the end or not, or if the handler of properties left it marked. Only a visit of such a
handler takes the mark back, and another plan has it only from the weaver (`build_marks_processing`).
-/

namespace Wiring

/-! ## Methods that call for processing -/

/-- Some visit turns the mark of a plan, that is set or else taken back. -/
def PropertyHandler.Turns (h : PropertyHandler) (mark : Bool) : Prop :=
  ∃ c plan optional x claimed main, h.visit c plan optional x = .ok (claimed, main) ∧
    plan.requiresMethodProcessing = !mark ∧ main.requiresMethodProcessing = mark

/-- A weaver gives a mark to a plan that it shapes. -/
inductive Weaver.Marks (w : Weaver) : Prop
  | proxyPlan {c : ClassModel} {main : Plan} {advice : CapabilitySet}
      (h : (w.proxyPlan c main advice).requiresMethodProcessing = true) : Marks w
  | interceptMethod {proxy : Plan} {c : ClassModel} {m : MethodModel} {bindings : List String}
      (hproxy : proxy.requiresMethodProcessing = false)
      (h : (w.interceptMethod proxy c m bindings).requiresMethodProcessing = true) : Marks w
  | adapterPlan {c : ClassModel} {m : MethodModel} {n : Nat} {plan : Plan}
      (hplan : w.adapterPlan c m n = some plan) (h : plan.requiresMethodProcessing = true) : Marks w

namespace Pass

/-- A step of a pass: the proxy is made, a property is gone over, or a member. -/
inductive Step (s : Setting) : Pass → Pass → Prop
  | proxy {p q : Pass} (h : p.openProxy s = .ok q) : Step s p q
  | property {p q : Pass} {x : PropertyModel} (hs : s.strategy.readsProperties = true)
      (h : p.visitProperty s x = .ok q) : Step s p q
  | member {p q : Pass} {slot : MemberSlot} (h : visit s p slot = .ok q) : Step s p q

/-- Some steps, one after the other. -/
def Steps (s : Setting) : Pass → Pass → Prop := Relation.ReflTransGen (Step s)

variable {s : Setting} {p q : Pass}

theorem main_openProxy (h : p.openProxy s = .ok q) : q.main = p.main := by
  unfold openProxy at h
  split at h
  · split at h
    · cases h
      rfl
    · cases h
  · cases h
    rfl

/-- Where a mark is turned over a property, the handler did it. -/
theorem Claims.turns {x : PropertyModel} {d : Disposition} {mark : Bool} (h : Claims s p x d q)
    (hp : p.main.requiresMethodProcessing = !mark) (hq : q.main.requiresMethodProcessing = mark) :
    s.strategy.handler.Turns mark := by
  obtain ⟨claimed, main, hv, hmain⟩ := h.visited (f := Plan.requiresMethodProcessing) fun _ _ => rfl
  exact ⟨_, p.main, _, x, claimed, main, hv, hp, hmain.symm.trans hq⟩

theorem Reads.turns {rs : List (PropertyModel × Disposition)} {mark : Bool} (h : Reads s p rs q)
    (hp : p.main.requiresMethodProcessing = !mark) (hq : q.main.requiresMethodProcessing = mark) :
    s.strategy.handler.Turns mark := by
  induction h with
  | nil p => simp [hp] at hq
  | @cons p p' q x d rs hx _ ih =>
      by_cases hturned : p'.main.requiresMethodProcessing = mark
      · exact hx.turns hp hturned
      · exact ih (Bool.eq_not.2 hturned) hq

theorem Enters.mark_eq {x : Candidate} {d : Disposition} (h : Enters s p x d q) :
    q.main.requiresMethodProcessing =
      (p.main.requiresMethodProcessing || x.isProcessed s.strategy p.model) :=
  congrArg Entries.requiresMethodProcessing h.main_entries

theorem Runs.mark_eq {es : List (Candidate × Disposition)} (h : Runs s p es q) :
    q.main.requiresMethodProcessing =
      (p.main.requiresMethodProcessing || es.any (·.1.isProcessed s.strategy p.model)) := by
  refine (congrArg Entries.requiresMethodProcessing h.main_entries).trans ?_
  refine congrArg (p.main.requiresMethodProcessing || ·) ?_
  rw [Entries.total_processing, List.any_map]
  rfl

theorem Step.turns (h : Step s p q) (hp : p.main.requiresMethodProcessing = true)
    (hq : q.main.requiresMethodProcessing = false) :
    s.strategy.readsProperties = true ∧ s.strategy.handler.Turns false := by
  cases h with
  | proxy h =>
      rw [main_openProxy h, hp] at hq
      cases hq
  | property hs h =>
      obtain ⟨d, hd⟩ := claims_of_visitProperty h
      exact ⟨hs, hd.turns hp hq⟩
  | member h =>
      -- A member can only add to the mark.
      rcases visit_ok h with ⟨_, rfl⟩ | ⟨x, d, _, hd⟩
      · cases hp.symm.trans hq
      · rw [hd.mark_eq, hp] at hq
        cases hq

theorem Steps.turns (h : Steps s p q) (hp : p.main.requiresMethodProcessing = true)
    (hq : q.main.requiresMethodProcessing = false) :
    s.strategy.readsProperties = true ∧ s.strategy.handler.Turns false := by
  induction h with
  | refl => cases hp.symm.trans hq
  | @tail p' _ _ hstep ih =>
      cases hp' : p'.main.requiresMethodProcessing with
      | true => exact hstep.turns hp' hq
      | false => exact ih hp'

/-! ### Proxies and adapters -/

/-- Neither the proxy nor an adapter is marked. -/
structure Unmarked (p : Pass) : Prop where
  proxy : ∀ plan ∈ p.proxy, plan.requiresMethodProcessing = false
  adapters : ∀ plan ∈ p.adapters, plan.requiresMethodProcessing = false

theorem unmarked_of_demandProxy {w : Weaver} (hw : ¬w.Marks) {c : ClassModel} {main proxy : Plan}
    {b : Bool} {t : Option MethodModel} {current : Option Plan}
    (hc : ∀ plan ∈ current, plan.requiresMethodProcessing = false)
    (h : demandProxy w c main b t current = .ok proxy) : proxy.requiresMethodProcessing = false := by
  cases current with
  | some proxy' =>
      rw [demandProxy_some] at h
      cases h
      exact hc proxy rfl
  | none =>
      rw [demandProxy_none] at h
      cases hk : checkProxyable c with
      | error v => simp [hk, Except.map] at h
      | ok _ =>
          obtain rfl : newProxy w c main b t = proxy := by simpa [hk, Except.map] using h
          have hentries : (newProxy w c main b t).entries =
              (w.proxyPlan c main (proxyAdvice c b t)).entries := by
            rw [newProxy, Plan.entries_withSuperBean, Plan.entries_withShape]
          refine (congrArg Entries.requiresMethodProcessing hentries).trans ?_
          exact Bool.eq_false_iff.2 fun hmark => hw (.proxyPlan hmark)

theorem Unmarked.record (h : p.Unmarked) (k : MemberKind) (m : Member) (d : Disposition) :
    (p.record k m d).Unmarked := by
  refine ⟨fun plan hplan => ?_, fun plan hplan => h.adapters plan (by simpa using hplan)⟩
  rw [proxy_record] at hplan
  obtain ⟨proxy, hproxy, rfl⟩ := Option.map_eq_some_iff.1 hplan
  split
  · exact h.proxy proxy hproxy
  · exact h.proxy proxy hproxy

theorem Registers.unmarked (hw : ¬s.weaver.Marks) {m : MethodModel} {v : Verdict}
    {d : Disposition} (h : Registers s p m v q d) (hp : p.Unmarked) : q.Unmarked := by
  cases h with
  | adapted hplan =>
      refine ⟨hp.proxy, fun plan hmem => ?_⟩
      rcases List.mem_append.1 hmem with hmem | hmem
      · exact hp.adapters plan hmem
      · rw [List.mem_singleton.1 hmem]
        exact Bool.eq_false_iff.2 fun hmark => hw (.adapterPlan hplan hmark)
  | intercepted hd =>
      refine ⟨fun plan hplan => ?_, hp.adapters⟩
      cases hplan
      have hproxy := unmarked_of_demandProxy hw hp.proxy hd
      exact Bool.eq_false_iff.2 fun hmark => hw (.interceptMethod hproxy hmark)
  | _ => exact ⟨hp.proxy, hp.adapters⟩

theorem Enters.unmarked (hw : ¬s.weaver.Marks) {x : Candidate} {d : Disposition}
    (h : Enters s p x d q) (hp : p.Unmarked) : q.Unmarked := by
  cases h with
  | field f =>
      have hmain (main : Plan) : ({ p with main } : Pass).Unmarked := ⟨hp.proxy, hp.adapters⟩
      exact (hmain _).record _ _ _
  | @method m j q d hj hr =>
      have hflagged : (p.flagged j.processed).Unmarked := by
        constructor
        · rw [proxy_flagged]
          exact hp.proxy
        · rw [adapters_flagged]
          exact hp.adapters
      exact (hr.unmarked hw hflagged).record _ _ _

theorem Step.unmarked (hw : ¬s.weaver.Marks) (h : Step s p q) (hp : p.Unmarked) : q.Unmarked := by
  cases h with
  | proxy h =>
      unfold openProxy at h
      split at h
      · split at h
        · rename_i proxy hd
          cases h
          refine ⟨fun plan hplan => ?_, hp.adapters⟩
          cases hplan
          exact unmarked_of_demandProxy hw hp.proxy hd
        · cases h
      · cases h
        exact hp
  | property _ h =>
      obtain ⟨d, hd⟩ := claims_of_visitProperty h
      exact ⟨hd.proxy_eq ▸ hp.proxy, hd.adapters_eq ▸ hp.adapters⟩
  | member h =>
      rcases visit_ok h with ⟨_, rfl⟩ | ⟨x, d, _, hd⟩
      · exact hp
      · exact hd.unmarked hw ⟨hp.proxy, hp.adapters⟩

theorem Steps.unmarked (hw : ¬s.weaver.Marks) (h : Steps s p q) (hp : p.Unmarked) :
    q.Unmarked := by
  induction h with
  | refl => exact hp
  | tail _ hstep ih => exact hstep.unmarked hw ih

end Pass

/-! ## Builds -/

variable {s : Setting} {c : ClassModel} {rs : List (PropertyModel × Disposition)}
  {es : List (Candidate × Disposition)} {p q : Pass} {set : PlanSet}

/-- Before the members are gone over, only a handler can have marked the main plan. -/
theorem Course.turns (h : Course s c rs es p q) (hp : p.main.requiresMethodProcessing = true) :
    s.strategy.readsProperties = true ∧ s.strategy.handler.Turns true := by
  have hopened : (Pass.opened s c).main.requiresMethodProcessing = false :=
    congrArg Entries.requiresMethodProcessing (Pass.main_entries_opened s c)
  cases hs : s.strategy.readsProperties with
  | true => exact ⟨rfl, h.reads.turns hopened hp⟩
  | false =>
      rw [h.eq_opened hs, hopened] at hp
      cases hp

end Wiring
