import StaticTyping.Proofs.Output.Frame

/-! Expressions without calls. Nothing that is found wrong with them tells how the arguments of a call
go with its parameters. No rule but the one for calls reports such a thing, and each visits only the
children of its expression, so a whole check reports no such thing either. -/

namespace StaticTyping

namespace Rule

variable {α : Type} {B : ExprId → Prop} {visits : Visits} {x : Rule α}

abbrev Account.plain (env : Env) (B : ExprId → Prop) : Account Unit where
  env
  visits := B
  one _ := ()
  tree _ := ()
  calls := False

lemma usesPlain_closed : Check.Closed fun {_} x => x.Uses Action.Plain := ⟨fun _ => trivial, .bind⟩

lemma Account.Gives.plain {env : Env} {K : Unit} {k : ℕ} {Q : α → Prop}
    (hx : (Account.plain env B).Gives [] K k x Q)
    (hexpr : ∀ role id, B id → (visits.expr role id).Uses Action.Plain)
    (hexpand : ∀ id span cyclic, (visits.expand [] id span cyclic).Uses Action.Plain) :
    (x.toCheck visits).Uses Action.Plain :=
  hx.closed usesPlain_closed not_false
    (fun _ _ hplain => ⟨hplain.resolve_right not_false, fun _ => trivial⟩) hexpr hexpand

end Rule

/-- No expression that this one leads to, itself included, is a call. -/
def Program.CallFree (p : Program) (id : ExprId) : Prop :=
  ∀ a, Relation.ReflTransGen p.ExprEdge id a → ∀ callee args, (p.expr a).kind ≠ .call callee args

lemma Program.CallFree.child {p : Program} {id c : ExprId} (h : p.CallFree id)
    (hc : c ∈ p.exprChildren id) : p.CallFree c :=
  fun a ha => h a (.head hc ha)

namespace Check

variable {env : Env}

lemma expand_plain (id : SymbolId) (span : Span) (cyclic : Cyclic) :
    (expand [] id span cyclic).Uses Action.Plain :=
  ⟨trivial, fun _ => Rule.usesPlain_closed.expandWithin (fun _ _ hplain => ⟨hplain, fun _ => trivial⟩)
    ⟨trivial, fun _ => trivial⟩ ..⟩

lemma exprWithin_plain {id : ExprId} (h : env.program.CallFree id) (depth : Nat) (role : Role) :
    (exprWithin env depth role id).Uses Action.Plain := by
  induction depth generalizing id role with
  -- To give up reports nothing, so the way down need not end.
  | zero => exact ⟨trivial, fun _ => trivial⟩
  | succ depth ih =>
    have hdescends : (Rule.Account.plain env env.program.CallFree).Descends :=
      .of_nowhere rfl rfl rfl (fun _ _ => rfl) fun _ _ h hc => h.child hc
    have hrule := Rule.expression_does hdescends (fun c hc => h.child hc) (h id .refl)
      (fun _ _ _ _ => trivial) role
    exact hrule.plain (fun role c hc => ih hc role) expand_plain

end Check

end StaticTyping
