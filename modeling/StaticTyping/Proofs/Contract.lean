import StaticTyping.Rule.Basic
import Mathlib.Tactic.Lemma

/-! What work does when its requests are answered by contract. A contract says in which worlds a
request may be made and what may come back. A rule is held to a contract over any kind of world; the
check that it amounts to is held to the actions as they are performed on states. -/

namespace StaticTyping

open StaticTyping.Action List

universe u v

variable {s : State} {R : State → State → Prop}

lemma getD_find?_mem {α : Type} {xs : List α} {p : α → Bool} (h : (xs.find? p).isSome) (other : α) :
    (xs.find? p).getD other ∈ xs := by
  obtain ⟨a, ha⟩ := Option.isSome_iff_exists.mp h
  rw [ha]
  exact mem_of_find?_eq_some ha

/-- The worlds in which a request may be made, and the answers and worlds that may follow. -/
structure Contract (F : Type → Type u) (W : Type) where
  requires {α : Type} : F α → W → Prop
  ensures {α : Type} : F α → W → α → W → Prop

namespace Steps

variable {F : Type → Type u} {G : Type → Type v} {W V α β : Type} {C : Contract F W} {w : W}
  {x : Steps F α} {Q P : α → W → Prop} {f : α → Steps F β}
  {answer answer' : {β : Type} → F β → Steps G β}

/-- From a world on, each request that the work makes is allowed, and whatever the contract lets come
back, the work ends with an answer and in a world as `Q` says. -/
def Meets (C : Contract F W) : Steps F α → W → (α → W → Prop) → Prop
  | .done answer, w, Q => Q answer w
  | .ask request next, w, Q =>
    C.requires request w ∧ ∀ answer v, C.ensures request w answer v → (next answer).Meets C v Q

@[simp] lemma meets_pure (a : α) (w : W) (Q : α → W → Prop) :
    (pure a : Steps F α).Meets C w Q ↔ Q a w := Iff.rfl

lemma Meets.mono (h : x.Meets C w P) (hPQ : ∀ a v, P a v → Q a v) : x.Meets C w Q := by
  induction x generalizing w with
  | done a => exact hPQ a w h
  | ask request next ih => exact ⟨h.1, fun answer v hv => ih answer (h.2 answer v hv)⟩

lemma Meets.bind {Q : β → W → Prop} (hx : x.Meets C w P) (hf : ∀ a v, P a v → (f a).Meets C v Q) :
    (x >>= f).Meets C w Q := by
  induction x generalizing w with
  | done a => exact hf a w hx
  | ask request next ih => exact ⟨hx.1, fun answer v hv => ih answer (hx.2 answer v hv)⟩

lemma Meets.and {x : Steps F α} {w : W} {P Q : α → W → Prop} (hP : x.Meets C w P)
    (hQ : x.Meets C w Q) : x.Meets C w fun a v => P a v ∧ Q a v := by
  induction x generalizing w with
  | done a => exact ⟨hP, hQ⟩
  | ask request next ih =>
    exact ⟨hP.1, fun answer v hv => ih answer (hP.2 answer v hv) (hQ.2 answer v hv)⟩

/-- A contract over worlds of one kind is carried over to worlds of another kind, request by
request. -/
lemma Meets.handle {D : Contract G V} {view : W → V → Prop}
    (h : ∀ {β : Type} (request : F β) (w : W) (v : V), view w v → C.requires request w →
      (answer request).Meets D v fun b v' => ∃ w', view w' v' ∧ C.ensures request w b w') {v : V}
    (hx : x.Meets C w Q) (hv : view w v) :
    (x.handle answer).Meets D v fun a v' => ∃ w', view w' v' ∧ Q a w' := by
  induction x generalizing w v with
  | done a => exact ⟨w, hv, hx⟩
  | ask request next ih =>
    refine (h request w v hv hx.1).bind fun b v' hb => ?_
    -- The world goes along with the state, so that the next request is made in both.
    obtain ⟨w', hw', hens⟩ := hb
    exact ih b (hx.2 b w' hens) hw'

/-- To do other work in place of requests, only the requests that the contract allows matter, if it
lets any answer come back. -/
lemma Meets.handle_congr (hanswer : ∀ {β : Type} (request : F β) (w : W), C.requires request w →
      answer request = answer' request)
    (hany : ∀ {β : Type} (request : F β) (w : W) (b : β), C.requires request w →
      ∃ v, C.ensures request w b v) (hx : x.Meets C w Q) : x.handle answer = x.handle answer' := by
  induction x generalizing w with
  | done a => rfl
  | ask request next ih =>
    have hnext : (fun b => (next b).handle answer) = fun b => (next b).handle answer' := by
      funext b
      obtain ⟨v, hv⟩ := hany request w b hx.1
      exact ih b (hx.2 b v hv)
    simp only [Steps.handle, hanswer request w hx.1, hnext]

/-- Whatever comes back, each request that the work makes is as `P` says. -/
def Uses (P : {β : Type} → F β → Prop) : Steps F α → Prop
  | .done _ => True
  | .ask request next => P request ∧ ∀ answer, (next answer).Uses P

lemma Uses.mono {P R : {β : Type} → F β → Prop} (hx : x.Uses P)
    (h : ∀ {β : Type} (request : F β), P request → R request) : x.Uses R := by
  induction x with
  | done a => trivial
  | ask request next ih => exact ⟨h request hx.1, fun answer => ih answer (hx.2 answer)⟩

lemma Uses.bind {P : {β : Type} → F β → Prop} (hx : x.Uses P) (hf : ∀ a, (f a).Uses P) :
    (x >>= f).Uses P := by
  induction x with
  | done a => exact hf a
  | ask request next ih => exact ⟨hx.1, fun answer => ih answer (hx.2 answer)⟩

/-- To do other work in place of requests, only those that are made matter. -/
lemma Uses.handle_congr {P : {β : Type} → F β → Prop}
    (h : ∀ {β : Type} (request : F β), P request → answer request = answer' request) (hx : x.Uses P) :
    x.handle answer = x.handle answer' := by
  induction x with
  | done a => rfl
  | ask request next ih =>
    have hnext : (fun b => (next b).handle answer) = fun b => (next b).handle answer' :=
      funext fun b => ih b (hx.2 b)
    simp only [Steps.handle, h request hx.1, hnext]

lemma Uses.meets {P : {β : Type} → F β → Prop} {I : W → Prop}
    (h : ∀ {β : Type} (request : F β) (w : W), P request → I w →
      C.requires request w ∧ ∀ answer v, C.ensures request w answer v → I v) (hx : x.Uses P)
    (hw : I w) : x.Meets C w fun _ v => I v := by
  induction x generalizing w with
  | done a => exact hw
  | ask request next ih =>
    obtain ⟨hreq, hens⟩ := h request w hx.1 hw
    exact ⟨hreq, fun answer v hv => ih answer (hx.2 answer) (hens answer v hv)⟩

end Steps

def Action.performing (ok : {β : Type} → Action β → State → Prop) : Contract Action State where
  requires action s := ok action s
  ensures action s answer after := action.step s = (answer, after)

namespace Check

variable {α β : Type} {ok : {β : Type} → Action β → State → Prop} {x : Check α}
  {Q : α → State → Prop}

/-- Each action that the check performs is as `P` says of it and of the state that it is performed
in. -/
def Along (P : {β : Type} → Action β → State → Prop) : Check α → State → Prop
  | .done _, _ => True
  | .ask action next, s => P action s ∧ Along P (next (action.step s).1) (action.step s).2

lemma along_of_forall {P : {β : Type} → Action β → State → Prop}
    (h : ∀ {β : Type} (action : Action β) (s : State), P action s) (x : Check α) (s : State) :
    x.Along P s := by
  induction x generalizing s with
  | done _ => trivial
  | ask action next ih => exact ⟨h action s, ih _ _⟩

lemma Along.mono {P Q : {β : Type} → Action β → State → Prop} (h : x.Along P s)
    (hPQ : ∀ {β : Type} (action : Action β) (s : State), P action s → Q action s) :
    x.Along Q s := by
  induction x generalizing s with
  | done _ => trivial
  | ask action next ih => exact ⟨hPQ action s h.1, ih _ h.2⟩

lemma Along.and {P Q : {β : Type} → Action β → State → Prop} {x : Check α} (hP : x.Along P s)
    (hQ : x.Along Q s) : x.Along (fun action s => P action s ∧ Q action s) s := by
  induction x generalizing s with
  | done _ => trivial
  | ask action next ih => exact ⟨⟨hP.1, hQ.1⟩, ih _ hP.2 hQ.2⟩

/-- On states, to meet a contract is to perform allowed actions and to end as told. -/
lemma meets_performing_iff :
    x.Meets (performing ok) s Q ↔ x.Along ok s ∧ Q (x.run s).1 (x.run s).2 := by
  induction x generalizing s with
  | done a => exact ⟨fun h => ⟨trivial, h⟩, fun h => h.2⟩
  | ask action next ih =>
    constructor
    · intro h
      have hnext := (ih _).mp (h.2 _ _ rfl)
      exact ⟨⟨h.1, hnext.1⟩, hnext.2⟩
    · rintro ⟨⟨hok, halong⟩, hQ⟩
      refine ⟨hok, fun answer after hstep => ?_⟩
      have hanswer : (action.step s).1 = answer := congrArg Prod.fst hstep
      have hafter : (action.step s).2 = after := congrArg Prod.snd hstep
      subst hanswer hafter
      exact (ih _).mpr ⟨halong, hQ⟩

lemma meets_of_run (h : Q (x.run s).1 (x.run s).2) : x.Meets (performing fun _ _ => True) s Q :=
  meets_performing_iff.mpr ⟨along_of_forall (fun _ _ => trivial) x s, h⟩

lemma meets_of_allowed {ok' : {β : Type} → Action β → State → Prop}
    (h : x.Meets (performing ok) s Q)
    (hok : ∀ {β : Type} (action : Action β) (s : State), ok action s → ok' action s) :
    x.Meets (performing ok') s Q := by
  obtain ⟨halong, hQ⟩ := meets_performing_iff.mp h
  exact meets_performing_iff.mpr ⟨halong.mono hok, hQ⟩

/-- What holds in each state that an action is performed in, and in the last state, holds in every
state passed through. -/
lemma forall_mem_states {P : State → Prop} (halong : x.Along (fun _ t => P t) s)
    (hlast : P (x.run s).2) : ∀ t ∈ x.states s, P t := by
  induction x generalizing s with
  | done a => simpa [states, run] using hlast
  | ask action next ih =>
    intro t ht
    rcases mem_cons.mp ht with rfl | ht
    · exact halong.1
    · exact ih _ halong.2 hlast t ht

/-- A relation between states that each performed action keeps to holds between the first and the
last state. -/
lemma Along.rel (hrefl : ∀ s, R s s) (htrans : ∀ {a b c}, R a b → R b c → R a c)
    (h : x.Along (fun action t => R t (action.step t).2) s) : R s (x.run s).2 := by
  induction x generalizing s with
  | done a => exact hrefl s
  | ask action next ih => exact htrans h.1 (ih _ h.2)

/-- It holds between any two states passed through, the earlier one first. -/
lemma Along.pairwise (hrefl : ∀ s, R s s) (htrans : ∀ {a b c}, R a b → R b c → R a c)
    (h : x.Along (fun action t => R t (action.step t).2) s) :
    (∀ t ∈ x.states s, R s t) ∧ (x.states s).Pairwise R := by
  induction x generalizing s with
  | done a => exact ⟨fun t ht => mem_singleton.mp ht ▸ hrefl s, pairwise_singleton R s⟩
  | ask action next ih =>
    obtain ⟨hlater, hpairwise⟩ := ih _ h.2
    have hfirst : ∀ t ∈ states (next (action.step s).1) (action.step s).2, R s t :=
      fun t ht => htrans h.1 (hlater t ht)
    refine ⟨fun t ht => ?_, pairwise_cons.mpr ⟨hfirst, hpairwise⟩⟩
    rcases mem_cons.mp ht with rfl | ht
    · exact hrefl t
    · exact hfirst t ht

end Check

/-- Parts are checked as a contract for rules says, where `view` tells which states a world stands
for. -/
structure Visits.Fulfil {W : Type} (visits : Visits) (C : Contract Request W)
    (ok : {β : Type} → Action β → State → Prop) (view : W → State → Prop) : Prop where
  act {β : Type} {action : Action β} {w : W} {s : State} : view w s → C.requires (.act action) w →
    ok action s ∧ ∃ w', view w' (action.step s).2 ∧ C.ensures (.act action) w (action.step s).1 w'
  expr {role : Role} {id : ExprId} {w : W} {s : State} : view w s → C.requires (.expr role id) w →
    (visits.expr role id).Meets (performing ok) s
      fun ty t => ∃ w', view w' t ∧ C.ensures (.expr role id) w ty w'
  stmt {id : StmtId} {w : W} {s : State} : view w s → C.requires (.stmt id) w →
    (visits.stmt id).Meets (performing ok) s
      fun done t => ∃ w', view w' t ∧ C.ensures (.stmt id) w done w'
  expand {active : List String} {id : SymbolId} {span : Span} {cyclic : Cyclic} {w : W} {s : State} :
    view w s → C.requires (.expand active id span cyclic) w →
    (visits.expand active id span cyclic).Meets (performing ok) s
      fun found t => ∃ w', view w' t ∧ C.ensures (.expand active id span cyclic) w found w'

/-- A rule that meets a contract amounts to a check that does, if its parts are checked by contract.
-/
lemma Rule.toCheck_meets {W α : Type} {visits : Visits} {C : Contract Request W}
    {ok : {β : Type} → Action β → State → Prop} {view : W → State → Prop} (h : visits.Fulfil C ok view)
    {rule : Rule α} {w : W} {Q : α → W → Prop} (hrule : rule.Meets C w Q) (hview : view w s) :
    (rule.toCheck visits).Meets (performing ok) s fun a t => ∃ w', view w' t ∧ Q a w' := by
  refine .handle (fun request w s hview hreq => ?_) hrule hview
  cases request with
  | act action =>
    obtain ⟨hok, w', hw', hens⟩ := h.act hview hreq
    refine ⟨hok, fun answer after hstep => ?_⟩
    rw [hstep] at hw' hens
    exact ⟨w', hw', hens⟩
  | expr role id => exact h.expr hview hreq
  | stmt id => exact h.stmt hview hreq
  | expand active id span cyclic => exact h.expand hview hreq

end StaticTyping
