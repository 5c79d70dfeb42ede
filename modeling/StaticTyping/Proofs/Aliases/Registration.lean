import StaticTyping.Proofs.Aliases.Expansion

/-! What registering the parts of declarations keeps: all that is kept when types are resolved, values
are introduced, and type parameters are declared in scopes of their own. -/

namespace StaticTyping

open StaticTyping.Action List Finding

lemma Avoids.method {M : String → Prop} {p : Program} {id m : StmtId} (h : Avoids M (p.scopedParams id))
    (hm : m ∈ p.methodsOf id) : Avoids M (p.stmt m).kind.typeParams := by
  unfold Program.methodsOf at hm
  unfold Program.scopedParams at h
  split at hm
  · rename_i kind decl hkind
    simp only [hkind] at h
    exact fun param hparam => h param (mem_append_right _ (mem_flatMap.mpr ⟨m, hm, hparam⟩))
  · cases hm

/-- Values may be introduced and findings reported, but no cycle of aliases. -/
structure Introducing (I : State → Prop) : Prop where
  allocate {s : State} {symbol : Symbol} : symbol.kind ≠ .typeAlias → symbol.aliasTarget = none →
    I s → I ((allocate symbol).step s).2
  declareValue {s : State} (name : String) (id : SymbolId) :
    I s → I ((declareValue name id).step s).2
  report {s : State} {finding : Finding} (span : Span) : finding.code ≠ .aliasCycle → I s →
    I (s.reporting finding span)

structure Registering (visits : Visits) (M : String → Prop) (I : State → Prop) : Prop
    extends Introducing I where
  declareType {s : State} {name : String} {id : SymbolId} : ¬M name →
    (s.symbols.get id).kind = .typeParam → I s → I ((declareType name id).step s).2
  pushScope {s : State} : I s → I ((pushScope).step s).2
  popScope {s : State} : I s → I ((popScope).step s).2
  setMembers {s : State} (id : SymbolId) (members : List Member) : I s →
    I ((setMembers id members).step s).2
  setVariants {s : State} (id : SymbolId) (variants : List SymbolId) : I s →
    I ((setVariants id variants).step s).2
  noteDeclaration {s : State} (id : StmtId) (symbol : SymbolId) : I s →
    I ((noteDeclaration id symbol).step s).2
  resolve {s : State} (t : TypeExpr) : I s → Rule.Ends visits (Rule.resolveType t) s fun _ => I

/-- If the state is as `J` says, so are all that the check passes through. -/
def Check.Stays (J : State → Prop) {α : Type} (x : Check α) (s : State) : Prop :=
  J s → x.Meets (performing fun _ t => J t) s fun _ t => J t

namespace Rule

open Steps (Has)

variable {α β : Type} {visits : Visits} {I : State → Prop} {M : String → Prop} {p : Program}
  {x : Rule α} {s : State} {Q : α → State → Prop} {id : StmtId}

/-- The contract of requests that are carried out on states, where all states are as `J` says. -/
def running (visits : Visits) (J : State → Prop) : Contract Request State where
  requires request s := (toCheck visits (.lift request)).Stays J s
  ensures request s answer t := (toCheck visits (.lift request)).run s = (answer, t)

lemma meets_running_iff : x.Meets (running visits fun _ => True) s Q ↔ Ends visits x s Q := by
  induction x generalizing s with
  | done a => exact Iff.rfl
  | ask request next ih =>
    have hrun : Ends visits (.ask request next) s Q ↔
        Ends visits (.lift request) s fun a t => Ends visits (next a) t Q := by
      have hbind : (Steps.ask request next : Rule α) = .lift request >>= next := rfl
      unfold Ends
      rw [hbind, toCheck_bind, Check.run_bind]
    rw [hrun]
    refine ⟨fun h => (ih _).mp (h.2 _ _ rfl), fun h => ⟨fun _ => Check.meets_of_run trivial, fun a t ht => ?_⟩⟩
    unfold Ends at h
    rw [ht] at h
    exact (ih a).mpr h

lemma stays_of_meets {J : State → Prop} (h : x.Meets (running visits J) s Q) :
    (toCheck visits x).Stays J s := by
  intro hs
  induction x generalizing s with
  | done a => exact hs
  | ask request next ih =>
    have hbind : (Steps.ask request next : Rule α) = .lift request >>= next := rfl
    obtain ⟨halong, hlast⟩ := Check.meets_performing_iff.mp (h.1 hs)
    rw [hbind, toCheck_bind]
    refine .bind (P := fun a t => J t ∧ (toCheck visits (.lift request)).run s = (a, t)) ?_ ?_
    · exact Check.meets_performing_iff.mpr ⟨halong, hlast, rfl⟩
    · exact fun a t ht => ih a (h.2 a t ht.2) ht.1

def keeping (I : State → Prop) : Effect ℕ State :=
  ⟨fun _ s t => I s → I t, fun _ h => h, fun h h' hs => h' (h hs)⟩

abbrev Keeps (visits : Visits) (I : State → Prop) (x : Rule α) : Prop :=
  Has (running visits fun _ => True) (keeping I) 0 x

namespace Keeps

lemma of_ends (h : ∀ s, I s → Ends visits x s fun _ => I) : Keeps visits I x :=
  fun s => meets_running_iff.mpr fun hs => h s hs

lemma ends (h : Keeps visits I x) (hs : I s) : Ends visits x s fun _ => I :=
  meets_running_iff.mp (h s) hs

lemma perform (action : Action α) (h : ∀ s, I s → I (action.step s).2) :
    Keeps visits I (perform action) := of_ends fun s hs => .perform action (h s hs)

end Keeps

lemma symbol_keeps (id : SymbolId) : Keeps visits I (symbol id) := Keeps.perform (.readSymbol id) fun _ hs => hs

lemma report_keeps (h : Introducing I) {finding : Finding} (hcode : finding.code ≠ .aliasCycle)
    (span : Span) : Keeps visits I (report finding span) :=
  Keeps.perform _ fun _ hs => h.report span hcode hs

lemma introduce_keeps (h : Introducing I) {symbol : Symbol} (hkind : symbol.kind ≠ .typeAlias)
    (htarget : symbol.aliasTarget = none) : Keeps visits I (introduce symbol) := by
  refine .after (Keeps.perform (.allocate symbol) fun _ hs => h.allocate hkind htarget hs) fun id => ?_
  refine .after (Keeps.perform (.declareValue symbol.name id) fun _ hs => h.declareValue _ id hs) fun found => ?_
  cases found with
  | none => exact .pure ()
  | some existing => exact (symbol_keeps existing).after fun _ => report_keeps h (by simp [code]) _

section Registering

variable (h : Registering visits M I)
include h

lemma typeParam_keeps {name : String} (hname : ¬M name) {symbol : Symbol}
    (hkind : symbol.kind = .typeParam) (htarget : symbol.aliasTarget = none) (span : Span) :
    Keeps visits I (do
      let made ← perform (.allocate symbol)
      declareType name made span) := by
  refine Keeps.of_ends fun s hs => ?_
  refine (Ends.perform (.allocate symbol) (Q := fun id t => (t.symbols.get id).kind = .typeParam ∧ I t)
    ⟨?_, h.allocate (by simp [hkind]) htarget hs⟩).bind ?_
  · exact (congrArg Symbol.kind (SymbolTable.get_alloc_new ..)).trans hkind
  rintro id t ⟨hid, ht⟩
  refine (Ends.perform (.declareType name id) (Q := fun _ => I) (h.declareType hname hid ht)).bind
    fun found u hu => ?_
  cases found with
  | none => exact .pure hu
  | some existing =>
    exact Keeps.ends ((symbol_keeps existing).after fun _ =>
      report_keeps h.toIntroducing (by simp [code]) span) hu

lemma registering_registry : Registry M (running visits fun _ => True) (keeping I) where
  symbol := symbol_keeps
  declaredSymbol id := Keeps.perform (.declaredSymbol id) fun _ hs => hs
  report _ span _ hcode := report_keeps h.toIntroducing hcode span
  resolve t := Keeps.of_ends fun _ hs => h.resolve t hs
  allocate symbol hproper hkind := Keeps.perform _ fun _ hs => by
    have halias : symbol.kind ≠ .typeAlias := fun h => by simp [h, SymbolKind.isType] at hkind
    exact h.allocate halias (by_contra fun htarget => halias (hproper.target htarget)) hs
  bindValue name id := Keeps.perform _ fun _ hs => h.declareValue name id hs
  typeParam param hparam := typeParam_keeps h hparam rfl rfl param.span
  scope {_ _ _} hx := by
    refine .after (Keeps.perform .pushScope fun _ hs => h.pushScope hs) fun _ => ?_
    exact hx.before fun _ => (Keeps.perform .popScope fun _ hs => h.popScope hs).andPure

lemma functionSymbol_keeps {decl : FunctionDecl} (hkind : (p.stmt id).kind = .function decl)
    (hparams : Avoids M (p.stmt id).kind.typeParams) : Keeps visits I (functionSymbol id decl) := by
  rw [hkind] at hparams
  exact (registering_registry h).functionSymbol hparams fun made =>
    Keeps.perform _ fun _ hs => h.noteDeclaration id made hs

/-- The parts of a type declaration. How an alias is expanded has to be known by itself. -/
lemma populateType_keeps {declared : SymbolId} (hparams : Avoids M (p.scopedParams id))
    (halias : ∀ decl, (p.stmt id).kind = .typeAlias decl → Keeps visits I (expandDeclared declared)) :
    Keeps visits I (populateType p id declared) := by
  simpa using (registering_registry h).populateType (c := fun _ => 0) hparams
    (fun members => Keeps.perform _ fun _ hs => h.setMembers declared members hs)
    (fun _ _ variants => Keeps.perform _ fun _ hs => h.setVariants declared variants hs)
    (fun m hm decl hkind => functionSymbol_keeps h hkind (hparams.method hm)) halias

lemma registerIfFunction_keeps (hparams : Avoids M (p.stmt id).kind.typeParams) :
    Keeps visits I (registerIfFunction p id) := by
  simpa using (registering_registry h).registerIfFunction (c := fun _ => 0) fun decl hkind =>
    functionSymbol_keeps h hkind hparams

end Registering

end Rule

end StaticTyping
