import StaticTyping.Proofs.Contract
import StaticTyping.Proofs.Stored.Step

/-! What a rule asks for and gets where states are sound. The world of a rule is the number of
symbols: actions take what makes sense there and give what does, expressions and aliases are of
sound type, and only statements and allocations lead to more symbols. -/

namespace StaticTyping

open List

variable {ty : Ty} {id : SymbolId}

def Role.Sound (E : Allowance) (n : Nat) : Role → Prop
  | .value hint => ∀ t ∈ hint, t.Sound E n
  | .target => True

/-- What a type expression or an alias stands for makes sense where there are `n` symbols, and only where
there may be errors are there cycles. -/
def ResolvesTo (E : Allowance) (n : Nat) (found : Ty × Cyclic) : Prop :=
  found.1.Sound E n ∧ ∀ name ∈ found.2, E.errors

namespace Rule

/-- The contract for rules in sound states. Where there must be no errors, nothing goes on after a
report. -/
def soundly (E : Allowance) : Contract Request Nat where
  requires
    | .act action, n => action.Takes E n
    | .expr role _, n => role.Sound E n
    | .stmt _, _ => E.errors
    | .expand _ id _ cyclic, n =>
      id.index < n ∧ (¬E.errors → E.expands id) ∧ ∀ name ∈ cyclic, E.errors
  ensures
    | .act action, n, answer, m =>
      (m = action.count n ∧ action.Gives E m answer) ∧ (action.Quiet ∨ E.errors)
    | .expr _ _, n, ty, m => m = n ∧ ty.Sound E n
    | .stmt _, n, _, m => n ≤ m
    | .expand _ _ _ _, n, found, m => m = n ∧ ResolvesTo E n found

variable {α β γ : Type} {E : Allowance} {n : Nat} {a : α} {xs : List β} {f : α → Rule β}
  {C : Nat → β → Prop}

/-- A rule that allocates nothing and whose answer is as `A` says. -/
def Answers (E : Allowance) (n : Nat) (x : Rule α) (A : α → Prop) : Prop :=
  x.Meets (soundly E) n fun a m => m = n ∧ A a

/-- A rule whose answer makes sense, as `A` says, where the symbols are that it leaves. There may be errors.
-/
def Grows (n : Nat) (x : Rule α) (A : Nat → α → Prop) : Prop :=
  x.Meets (soundly {}) n fun a m => n ≤ m ∧ A m a

namespace Answers

variable {x : Rule α} {A B : α → Prop}

protected lemma pure (h : A a) : Answers E n (pure a) A := ⟨rfl, h⟩

protected lemma bind {B : β → Prop} (hx : Answers E n x A) (hf : ∀ a, A a → Answers E n (f a) B) :
    Answers E n (x >>= f) B := by
  refine Steps.Meets.bind hx ?_
  rintro a m ⟨rfl, ha⟩
  exact hf a ha

lemma mono (hx : Answers E n x A) (h : ∀ a, A a → B a) : Answers E n x B :=
  Steps.Meets.mono hx fun a _ ha => ⟨ha.1, h a ha.2⟩

lemma done (hx : Answers E n x A) : Answers E n x fun _ => True := hx.mono fun _ _ => trivial

lemma seq {B : β → Prop} (hx : Answers E n x A) (hf : ∀ a, Answers E n (f a) B) :
    Answers E n (x >>= f) B := hx.bind fun a _ => hf a

lemma grows {C : Nat → α → Prop} (hx : Answers {} n x A) (h : ∀ a, A a → C n a) : Grows n x C := by
  refine .mono hx ?_
  rintro a m ⟨rfl, ha⟩
  exact ⟨le_rfl, h a ha⟩

lemma bind_grows (hx : Answers {} n x A) (hf : ∀ a, A a → Grows n (f a) C) :
    Grows n (x >>= f) C := by
  refine .bind hx ?_
  rintro a m ⟨rfl, ha⟩
  exact hf a ha

lemma seq_grows (hx : Answers {} n x A) (hf : ∀ a, Grows n (f a) C) :
    Grows n (x >>= f) C := hx.bind_grows fun a _ => hf a

lemma forM {f : β → Rule Unit} (h : ∀ b ∈ xs, Answers E n (f b) fun _ => True) :
    Answers E n (xs.forM f) fun _ => True := by
  induction xs with
  | nil => exact .pure trivial
  | cons b xs ih =>
    obtain ⟨hb, hxs⟩ := forall_mem_cons.mp h
    exact hb.seq fun _ => ih hxs

lemma mapM {f : β → Rule α} (h : ∀ b ∈ xs, Answers E n (f b) A) :
    Answers E n (xs.mapM f) fun answers => (∀ a ∈ answers, A a) ∧ (answers = [] → xs = []) := by
  induction xs with
  | nil => exact .pure ⟨nofun, fun _ => rfl⟩
  | cons b xs ih =>
    obtain ⟨hb, hxs⟩ := forall_mem_cons.mp h
    rw [mapM_cons]
    refine hb.bind fun a ha => (ih hxs).bind fun answers hanswers => .pure ⟨?_, nofun⟩
    exact forall_mem_cons.mpr ⟨ha, hanswers.1⟩

lemma foldlM {f : α → β → Rule α} (ha : A a) (h : ∀ a b, b ∈ xs → A a → Answers E n (f a b) A) :
    Answers E n (xs.foldlM f a) A := by
  induction xs generalizing a with
  | nil => exact .pure ha
  | cons b xs ih =>
    exact (h a b (.head _) ha).bind fun a ha => ih ha fun a b hb => h a b (.tail _ hb)

end Answers

namespace Grows

variable {x : Rule α} {A B : Nat → α → Prop}

protected lemma pure (h : A n a) : Grows n (pure a) A := ⟨le_rfl, h⟩

protected lemma bind {B : Nat → β → Prop} (hx : Grows n x A)
    (hf : ∀ a m, n ≤ m → A m a → Grows m (f a) B) : Grows n (x >>= f) B := by
  refine Steps.Meets.bind hx fun a m ha => ?_
  exact Steps.Meets.mono (hf a m ha.1 ha.2) fun b k hb => ⟨ha.1.trans hb.1, hb.2⟩

lemma mono (hx : Grows n x A) (h : ∀ a m, n ≤ m → A m a → B m a) : Grows n x B :=
  Steps.Meets.mono hx fun a m ha => ⟨ha.1, h a m ha.1 ha.2⟩

lemma done (hx : Grows n x A) : Grows n x fun _ _ => True := hx.mono fun _ _ _ _ => trivial

/-- Items that make sense in a world make sense in every larger one, so that each step may rely on
what the start knows. -/
lemma forM {f : β → Rule Unit} (h : ∀ b ∈ xs, ∀ m, n ≤ m → Grows m (f b) fun _ _ => True) :
    Grows n (xs.forM f) fun _ _ => True := by
  induction xs generalizing n with
  | nil => exact .pure trivial
  | cons b xs ih =>
    obtain ⟨hb, hxs⟩ := forall_mem_cons.mp h
    refine (hb n le_rfl).bind fun _ m hm _ => ih fun b hb k hk => ?_
    exact hxs b hb k (hm.trans hk)

lemma mapM {f : β → Rule α} (hmono : ∀ a m k, m ≤ k → A m a → A k a)
    (h : ∀ b ∈ xs, ∀ m, n ≤ m → Grows m (f b) A) :
    Grows n (xs.mapM f) fun m answers => ∀ a ∈ answers, A m a := by
  induction xs generalizing n with
  | nil => exact .pure nofun
  | cons b xs ih =>
    obtain ⟨hb, hxs⟩ := forall_mem_cons.mp h
    rw [mapM_cons]
    refine (hb n le_rfl).bind fun a m hm ha => ?_
    have hrest := ih fun b hb k hk => hxs b hb k (hm.trans hk)
    refine hrest.bind fun answers k hk hanswers => .pure ?_
    exact forall_mem_cons.mpr ⟨hmono a m k hk ha, hanswers⟩

end Grows

lemma perform_grows (action : Action α) (h : action.Takes {} n) :
    Grows n (perform action) (action.Gives {}) := by
  refine ⟨h, ?_⟩
  rintro a m ⟨⟨rfl, hgives⟩, -⟩
  exact ⟨action.le_count n, hgives⟩

lemma allocate_grows {symbol : Symbol} (h : symbol.Sound {} n) :
    Grows n (perform (.allocate symbol)) fun m id => id.index < m :=
  perform_grows (.allocate symbol) ⟨trivial, h⟩

lemma perform_answers (action : Action α) (h : action.Takes E n) (hcount : action.count n = n) :
    Answers E n (perform action) (action.Gives E n) := by
  refine ⟨h, ?_⟩
  rintro a m ⟨⟨rfl, hgives⟩, -⟩
  exact ⟨hcount, hcount ▸ hgives⟩

lemma noHint_sound : ∀ t ∈ (none : Option Ty), t.Sound E n := nofun

lemma hint_sound (h : ty.Sound E n) : ∀ t ∈ some ty, t.Sound E n := by
  rintro _ ⟨⟩
  exact h

lemma visit_answers {hint : Option Ty} (h : ∀ t ∈ hint, t.Sound E n) (id : ExprId) :
    Answers E n (visit (.value hint) id) (Ty.Sound E n) :=
  ⟨h, fun _ _ hty => hty⟩

lemma visitTarget_answers (id : ExprId) : Answers E n (visit .target id) (Ty.Sound E n) :=
  ⟨trivial, fun _ _ hty => hty⟩

lemma expand_answers (h : id.index < n) (hexpands : ¬E.errors → E.expands id) {cyclic : Cyclic}
    (hcyclic : ∀ name ∈ cyclic, E.errors) (active : List String) (span : Span) :
    Answers E n (Steps.lift (.expand active id span cyclic)) (ResolvesTo E n) :=
  ⟨⟨h, hexpands, hcyclic⟩, fun _ _ hfound => hfound⟩

lemma symbol_fits (h : id.index < n) :
    Answers E n (symbol id) fun declared => declared.Sound E n ∧ E.Fits id declared :=
  perform_answers (.readSymbol id) h rfl

lemma symbol_answers (h : id.index < n) : Answers E n (symbol id) (Symbol.Sound E n) :=
  (symbol_fits h).mono fun _ hdeclared => hdeclared.1

lemma lookupValue_answers (name : String) :
    Answers E n (lookupValue name) fun found => ∀ id ∈ found, id.index < n :=
  perform_answers (.lookupValue name) trivial rfl

lemma lookupType_answers (name : String) :
    Answers E n (lookupType name) fun found => ∀ id ∈ found, id.index < n :=
  perform_answers (.lookupType name) trivial rfl

lemma record_answers (h : ty.Sound E n) (id : ExprId) : Answers E n (record id ty) fun _ => True :=
  perform_answers (.record id ty) h rfl

lemma report_answers (finding : Finding) (span : Span) :
    Answers E n (report finding span) fun _ => E.errors := by
  refine ⟨trivial, ?_⟩
  rintro _ m ⟨⟨rfl, -⟩, hquiet⟩
  exact ⟨rfl, hquiet.resolve_left id⟩

lemma reportIf_answers (condition : Bool) (finding : Finding) (span : Span) :
    Answers E n (reportIf condition finding span) fun _ => True := by
  cases condition with
  | true => exact (report_answers finding span).done
  | false => exact .pure trivial

lemma reportAny_answers (finding : Option Finding) (span : Span) :
    Answers E n (reportAny finding span) fun _ => True := by
  cases finding with
  | some finding => exact (report_answers finding span).done
  | none => exact .pure trivial

lemma visitOnly_answers (id : ExprId) : Answers E n (visitOnly id) fun _ => True :=
  (visit_answers noHint_sound id).seq fun _ => .pure trivial

lemma failing_answers {A : α → Prop} (h : E.errors → A a) (finding : Finding) (span : Span) :
    Answers E n (do report finding span; return a) A :=
  (report_answers finding span).bind fun _ hE => .pure (h hE)

lemma declareValue_answers (h : id.index < n) (name : String) (span : Span) :
    Answers E n (declareValue name id span) fun _ => True := by
  refine (perform_answers (.declareValue name id) h rfl).bind fun found hfound => ?_
  cases found with
  | none => exact .pure trivial
  | some existing =>
    exact (symbol_answers (hfound existing rfl)).seq fun _ => (report_answers _ span).done

lemma declareType_answers (h : id.index < n) (name : String) (span : Span) :
    Answers E n (declareType name id span) fun _ => True := by
  refine (perform_answers (.declareType name id) h rfl).bind fun found hfound => ?_
  cases found with
  | none => exact .pure trivial
  | some existing =>
    exact (symbol_answers (hfound existing rfl)).seq fun _ => (report_answers _ span).done

lemma introduce_grows {symbol : Symbol} (h : symbol.Sound {} n) :
    Grows n (introduce symbol) fun _ _ => True :=
  (allocate_grows h).bind fun _ _ _ hid =>
    (declareValue_answers hid symbol.name symbol.span).grows fun _ _ => trivial

lemma inScope_grows {work : Rule α} {A : Nat → α → Prop} (h : Grows n work A) :
    Grows n (inScope work) A := by
  refine (perform_answers .pushScope trivial rfl).seq_grows fun _ => ?_
  refine h.bind fun a m _ ha => ?_
  exact (perform_answers .popScope trivial rfl).seq_grows fun _ => .pure ha

end Rule

end StaticTyping
