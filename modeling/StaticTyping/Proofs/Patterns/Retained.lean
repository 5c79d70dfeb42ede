import StaticTyping.Proofs.Aliases.Expansion
import StaticTyping.Proofs.Stored.Run

/-! What a statement leaves of the symbols there were before it. They may learn their types and
members, but names, owners, payloads and variants are never changed again: only the statement that
makes an enum gives it variants. -/

namespace StaticTyping

variable {β : Type} {action : Action β} {s : State} {base : SymbolTable}

/-- What a symbol is declared as. Its type and its members may be found out later. -/
def Symbol.declaration (symbol : Symbol) : Symbol := { symbol with ty := none, members := [] }

/-- The symbols of the first table are declared the same in the second one. -/
structure SymbolTable.Retains (before after : SymbolTable) : Prop where
  size : before.size ≤ after.size
  get {id : SymbolId} : id ∈ before → (after.get id).declaration = (before.get id).declaration

namespace SymbolTable.Retains

variable {base before after : SymbolTable}

protected lemma refl (table : SymbolTable) : table.Retains table := ⟨le_rfl, fun _ => rfl⟩

lemma trans (h : base.Retains before) (h' : before.Retains after) : base.Retains after where
  size := h.size.trans h'.size
  get hid := (h'.get (hid.trans_le h.size)).trans (h.get hid)

section Fields

variable {id : SymbolId} (h : before.Retains after) (hid : id ∈ before)
include h hid

lemma field {α : Type} (f : Symbol → α) (hf : ∀ symbol, f symbol.declaration = f symbol) :
    f (after.get id) = f (before.get id) := by
  rw [← hf, h.get hid, hf]

lemma name : (after.get id).name = (before.get id).name := h.field hid (·.name) fun _ => rfl

lemma kind : (after.get id).kind = (before.get id).kind := h.field hid (·.kind) fun _ => rfl

lemma owner : (after.get id).owner = (before.get id).owner := h.field hid (·.owner) fun _ => rfl

lemma payload : (after.get id).payload = (before.get id).payload := h.field hid (·.payload) fun _ => rfl

lemma variants : (after.get id).variants = (before.get id).variants := h.field hid (·.variants) fun _ => rfl

end Fields

lemma alloc (h : base.Retains before) (symbol : Symbol) : base.Retains (before.alloc symbol).2 where
  size := h.size.trans (by simp)
  get {id} hid := by
    have hne : id.index ≠ before.size := (hid.trans_le h.size).ne
    rw [before.get_alloc_of_ne symbol hne]
    exact h.get hid

lemma modify (h : base.Retains before) {id : SymbolId} {f : Symbol → Symbol}
    (hf : id ∈ base → ∀ symbol, (f symbol).declaration = symbol.declaration) :
    base.Retains (before.modify id f) where
  size := h.size.trans (by simp)
  get {other} hother := by
    by_cases heq : other = id
    · subst heq
      rcases before.get_modify_cases other other f with hget | hget
      · rw [hget, h.get hother]
      · rw [hget, hf hother, h.get hother]
    · rw [before.get_modify_of_ne f heq, h.get hother]

end SymbolTable.Retains

/-- Only new symbols are given variants, where `n` tells how many symbols are old. -/
def Action.Spares (n : Nat) {β : Type} : Action β → Prop
  | .setVariants id _ => n ≤ id.index
  | _ => True

lemma Action.Spares.of_not (h : ¬ action.Enumerating) (n : Nat) : action.Spares n := by
  cases action with
  | setVariants => exact absurd trivial h
  | _ => trivial

lemma Action.retains_step (h : base.Retains s.symbols)
    (haction : action.Spares base.size) : base.Retains (action.step s).2.symbols := by
  cases action with
  | allocate symbol => exact h.alloc symbol
  | setType id ty | fillType id ty | setMembers id members | retypeMethod id method ty =>
    exact h.modify fun _ _ => rfl
  | setVariants id variants => exact h.modify fun hid => absurd hid (Nat.not_lt.mpr haction)
  | declareValue name id | declareType name id | lookupValueType name =>
    simp only [step]
    split <;> exact h
  | _ => exact h

lemma Check.retains_run {α : Type} {x : Check α}
    (hx : x.Along (fun action _ => ¬ action.Enumerating) s) (h : base.Retains s.symbols) :
    base.Retains (x.run s).2.symbols := by
  induction x generalizing s with
  | done a => exact h
  | ask action next ih => exact ih _ hx.2 (Action.retains_step h (.of_not hx.1 _))

lemma Action.Local.not_enumerating (h : action.Local) : ¬ action.Enumerating := by
  cases action with
  | setVariants => exact h.elim
  | _ => exact not_false

namespace Rule

variable {α : Type} {p : Program} {n : Nat}

def sparing (p : Program) (n : Nat) : Contract Request Unit where
  requires
    | .act action, _ => action.Spares n
    | .expr _ id, _ => p.ExprEnds id
    | .stmt _, _ => True
    | .expand active _ _ _, _ => active = []
  ensures
    | .act (.allocate _), _, id, _ => n ≤ id.index
    | _, _, _, _ => True

abbrev Spares (p : Program) (n : Nat) (x : Rule α) : Prop := Steps.Has (sparing p n) uncounted 0 x

lemma perform_spares (action : Action α) (h : ¬ action.Enumerating) : Spares p n (perform action) :=
  fun _ => ⟨.of_not h n, fun _ _ _ => trivial⟩

lemma spares_lenient : Lenient (sparing p n) p.ExprEnds fun _ => True where
  act action _ h := by
    cases action with
    | setVariants => exact h.elim
    | _ => trivial
  expr _ _ _ h := h
  stmt _ _ := trivial
  expand _ _ _ _ := rfl

/-- The variants of an enum are given to a symbol that was made in the same statement. -/
lemma statement_spares {env : Env} {id : StmtId}
    (hexprs : ∀ e ∈ (env.program.stmt id).kind.exprs, env.program.ExprEnds e)
    (hmethods : ∀ m ∈ env.program.stmtChildren id, ∀ e ∈ (env.program.stmt m).kind.exprs,
      env.program.ExprEnds e) : Spares env.program n (statement env id) := by
  have hdeclaring {β : Type} (action : Action β) (h : action.Declaring) :
      Spares env.program n (perform action) := by
    refine perform_spares action fun henum => ?_
    cases action with
    | setVariants => exact h
    | _ => exact henum
  refine spares_lenient.walk.wholeStatement
    ⟨hexprs, hmethods, fun _ _ => trivial, fun _ _ _ _ => trivial⟩
    (fun ty => perform_spares (.noteReturn ty) fun h => h)
    (fun _ name ty => perform_spares (.narrow name ty) fun h => h)
    spares_lenient.encloses (fun _ => hdeclaring) (fun _ => ?_)
    fun _ _ made variants hmade _ => ⟨hmade, fun _ _ _ => trivial⟩
  exact spares_lenient.pieces.registerTypeName_gives (F := (n ≤ ·.index))
    (fun _ _ _ => ⟨trivial, fun _ _ h => ⟨trivial, h⟩⟩)
    (fun name made => perform_spares (.declareType name made) fun h => h)
    fun made _ => hdeclaring (.noteDeclaration id made) trivial

end Rule

namespace Check

variable {env : Env} {base : SymbolTable}

lemma sparing_fulfil (env : Env) (base : SymbolTable) {stmt : StmtId → Check Unit}
    (h : ∀ id s, base.Retains s.symbols → base.Retains ((stmt id).run s).2.symbols) :
    Visits.Fulfil { expr := expr env, stmt, expand } (Rule.sparing env.program base.size)
      (fun _ _ => True) (fun _ s => base.Retains s.symbols) where
  act {_ action _ s} hs haction := by
    refine ⟨trivial, (), Action.retains_step hs haction, ?_⟩
    cases action with
    | allocate symbol => exact hs.size
    | _ => trivial
  expr {role id _ s} hs hends := by
    obtain ⟨hlocal, -⟩ := meets_performing_iff.mp (expr_meets hends role s)
    exact meets_of_run ⟨(), retains_run (hlocal.mono fun _ _ h => h.not_enumerating) hs, trivial⟩
  stmt {id _ s} hs _ := meets_of_run ⟨(), h id s hs, trivial⟩
  expand {active id span cyclic _ s} hs hactive := by
    obtain rfl : active = [] := hactive
    obtain ⟨hresolving, -⟩ := meets_performing_iff.mp (expand_resolves id span cyclic s)
    exact meets_of_run
      ⟨(), retains_run (hresolving.mono fun _ _ h => h.local.not_enumerating) hs, trivial⟩

lemma sparing_run {visits : Visits} {α : Type} {x : Rule α} {s : State}
    (hvisits : visits.Fulfil (Rule.sparing env.program base.size) (fun _ _ => True)
      fun _ s => base.Retains s.symbols)
    (hx : Rule.Spares env.program base.size x) (hs : base.Retains s.symbols) :
    base.Retains ((x.toCheck visits).run s).2.symbols := by
  obtain ⟨-, -, hretains, -⟩ := meets_performing_iff.mp (Rule.toCheck_meets hvisits (hx ()) hs)
  exact hretains

lemma stmtWithin_retains (hacyclic : env.program.Acyclic) (depth : Nat) (id : StmtId) (s : State)
    (hs : base.Retains s.symbols) : base.Retains ((stmtWithin env depth id).run s).2.symbols := by
  induction depth generalizing id s with
  | zero => exact hs
  | succ depth ih =>
    exact sparing_run (sparing_fulfil env base ih) (Rule.statement_spares (hacyclic.stmt id).ends.here
      fun m _ => (hacyclic.stmt m).ends.here) hs

lemma stmt_retains (hacyclic : env.program.Acyclic) (id : StmtId) (s : State)
    (hs : base.Retains s.symbols) : base.Retains ((stmt env id).run s).2.symbols :=
  stmtWithin_retains hacyclic _ id s hs

/-- A rule that spares the symbols there are leaves them as they were declared. -/
lemma retains_of_spares (hacyclic : env.program.Acyclic) {α : Type} {x : Rule α} {s : State}
    (hx : Rule.Spares env.program s.symbols.size x) :
    s.symbols.Retains ((x.toCheck { expr := expr env, stmt := stmt env, expand }).run s).2.symbols :=
  sparing_run (sparing_fulfil env s.symbols (stmt_retains hacyclic)) hx (.refl s.symbols)

end Check

end StaticTyping
