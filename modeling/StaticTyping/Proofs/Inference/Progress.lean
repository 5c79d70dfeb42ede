import StaticTyping.Proofs.Order.Settling

/-! How far the types of functions are found. The type of a function without a written result is missing
until its body has been checked. A state is looked at together with the functions whose types were
found on the way to it: each function has a symbol of its own, and whatever else is done, the type of a
function that is not among those found stays missing. -/

namespace StaticTyping

open SymbolTable StaticTyping.Action StaticTyping.Symbol Prod

variable {made : SymbolId} {id : StmtId}

def Program.Inferred (p : Program) (id : StmtId) : Prop :=
  ∃ decl, (p.stmt id).kind = .function decl ∧ decl.result = none

lemma Program.not_inferred_of_isType {p : Program} (h : p.isType id) : ¬ p.Inferred id := by
  rintro ⟨decl, hkind, -⟩
  simp [isType, hkind, StmtKind.typeSymbol?] at h

/-- The symbol was made for that function, and the result of the function is not written. -/
structure State.Awaits (p : Program) (s : State) (f : StmtId) (sym : SymbolId) : Prop where
  inferred : p.Inferred f
  lookup : s.declarations.lookup f = some sym

/-- No declaration is noted, and no symbol but an alias is given a type. -/
structure State.Withholds (s t : State) : Prop where
  declarations : t.declarations = s.declarations
  size : s.symbols.size ≤ t.symbols.size
  aliasTarget {id : SymbolId} : id ∈ s.symbols →
    (t.symbols.get id).aliasTarget = (s.symbols.get id).aliasTarget
  ty {id : SymbolId} : id ∈ s.symbols → (s.symbols.get id).aliasTarget = none →
    (t.symbols.get id).ty = (s.symbols.get id).ty

namespace State

variable {s t u : State}

lemma Withholds.of_same (hsymbols : t.symbols = s.symbols)
    (hdeclarations : t.declarations = s.declarations) : s.Withholds t :=
  ⟨hdeclarations, by rw [hsymbols], fun _ => by rw [hsymbols], fun _ _ => by rw [hsymbols]⟩

lemma Withholds.trans (hst : s.Withholds t) (htu : t.Withholds u) : s.Withholds u where
  declarations := htu.declarations.trans hst.declarations
  size := hst.size.trans htu.size
  aliasTarget hid := (htu.aliasTarget (hid.trans_le hst.size)).trans (hst.aliasTarget hid)
  ty hid hplain :=
    (htu.ty (hid.trans_le hst.size) ((hst.aliasTarget hid).trans hplain)).trans (hst.ty hid hplain)

lemma Settles.withholds (h : s.Settles t) : s.Withholds t :=
  ⟨h.declarations, h.size.ge, fun _ => h.aliasTarget _, fun _ hplain => by rw [h.plain hplain]⟩

lemma withholds_allocate (s : State) (symbol : Symbol) :
    s.Withholds ((allocate symbol).step s).2 where
  declarations := rfl
  size := by simp [step, alloc, size]
  aliasTarget hid := by rw [← s.symbols.get_alloc_of_ne symbol hid.ne]; rfl
  ty hid _ := by rw [← s.symbols.get_alloc_of_ne symbol hid.ne]; rfl

lemma withholds_modifySymbol (s : State) (id : SymbolId) {f : Symbol → Symbol}
    (halias : ∀ symbol, (f symbol).aliasTarget = symbol.aliasTarget)
    (hty : ∀ symbol, (f symbol).ty = symbol.ty) : s.Withholds (s.modifySymbol id f) where
  declarations := rfl
  size := by simp [State.modifySymbol]
  aliasTarget _ := get_modify_field aliasTarget f halias id _
  ty _ _ := get_modify_field ty f hty id _

end State

def Action.Withholding {β : Type} : Action β → Prop
  | .setType _ _ | .fillType _ _ | .noteDeclaration _ _ => False
  | _ => True

namespace Action

variable {β : Type} {action : Action β}

lemma Withholding.step (h : action.Withholding) (s : State) : s.Withholds (action.step s).2 := by
  cases action with
  | setType | fillType | noteDeclaration => exact h.elim
  | allocate symbol => exact s.withholds_allocate symbol
  | setMembers id | setVariants id | retypeMethod id =>
    exact s.withholds_modifySymbol id (fun _ => rfl) fun _ => rfl
  | declareValue | declareType | lookupValueType =>
    simp only [step]
    split <;> exact .of_same rfl rfl
  | _ => exact .of_same rfl rfl

lemma Common.withholding (h : action.Common) : action.Withholding := by
  cases action with
  | setType | fillType | noteDeclaration => exact h
  | _ => trivial

end Action

/-- A state, and the functions whose types were found on the way to it. No function shares its symbol
with another one or with an alias, and what was not found is missing. -/
structure Inference (p : Program) where
  state : State
  found : Multiset StmtId
  mem {f : StmtId} {sym : SymbolId} : state.Awaits p f sym → sym ∈ state.symbols
  plain {f : StmtId} {sym : SymbolId} :
    state.Awaits p f sym → (state.symbols.get sym).aliasTarget = none
  distinct {f g : StmtId} {sym : SymbolId} : state.Awaits p f sym → state.Awaits p g sym → f = g
  missing {f : StmtId} {sym : SymbolId} :
    f ∉ found → state.Awaits p f sym → (state.symbols.get sym).ty = none

namespace Inference

variable {p : Program} {β : Type}

structure Takes (w : Inference p) (id : StmtId) (sym : SymbolId) : Prop where
  undeclared : w.state.declarations.lookup id = none
  mem : sym ∈ w.state.symbols
  plain : (w.state.symbols.get sym).aliasTarget = none
  ty : (w.state.symbols.get sym).ty = none
  unused : ∀ f, ¬ w.state.Awaits p f sym

/-- A type is set for a function only, and a new symbol is noted for it. -/
def Allows (w : Inference p) : Action β → Prop
  | .setType sym _ => ∃ f, w.state.Awaits p f sym
  | .fillType _ _ => False
  | .noteDeclaration id sym => p.Inferred id → w.Takes id sym
  | _ => True

def Counts (w : Inference p) (action : Action β) (v : Inference p) : Prop :=
  match action with
  | .setType sym _ => ∃ f, w.state.Awaits p f sym ∧ v.found = {f} + w.found
  | _ => v.found = w.found

structure Stays (w v : Inference p) : Prop where
  withholds : w.state.Withholds v.state
  found : v.found = w.found

section Worlds

variable (w : Inference p)

def start (p : Program) : Inference p where
  state := {}
  found := 0
  mem h := by simpa using h.lookup
  plain h := by simpa using h.lookup
  distinct h := by simpa using h.lookup
  missing _ h := by simpa using h.lookup

/-- Some functions are counted as found, whether they were or not. -/
def suppose (K : Multiset StmtId) : Inference p where
  __ := w
  found := K + w.found
  missing hf := w.missing fun hmem => hf (Multiset.mem_add.mpr (.inr hmem))

def withhold {t : State} (h : w.state.Withholds t) : Inference p :=
  have hback {f : StmtId} {sym : SymbolId} (hf : t.Awaits p f sym) : w.state.Awaits p f sym :=
    ⟨hf.inferred, h.declarations ▸ hf.lookup⟩
  { state := t
    found := w.found
    mem := fun hf => (w.mem (hback hf)).trans_le h.size
    plain := fun hf => (h.aliasTarget (w.mem (hback hf))).trans (w.plain (hback hf))
    distinct := fun hf hg => w.distinct (hback hf) (hback hg)
    missing := fun hfound hf =>
      (h.ty (w.mem (hback hf)) (w.plain (hback hf))).trans (w.missing hfound (hback hf)) }

def find {f : StmtId} {sym : SymbolId} (hf : w.state.Awaits p f sym) (ty : Ty) : Inference p where
  state := ((setType sym ty).step w.state).2
  found := {f} + w.found
  mem hg := by
    have hmem := w.mem (show w.state.Awaits p _ _ from ⟨hg.inferred, hg.lookup⟩)
    exact hmem.trans_eq size_modify.symm
  plain {g other} hg := by
    have hplain := w.plain (show w.state.Awaits p _ _ from ⟨hg.inferred, hg.lookup⟩)
    refine Eq.trans ?_ hplain
    exact get_modify_field Symbol.aliasTarget
      (fun symbol => { symbol with ty := some ty }) (fun _ => rfl) sym other
  distinct hg hk := w.distinct ⟨hg.inferred, hg.lookup⟩ ⟨hk.inferred, hk.lookup⟩
  missing {g other} hfound hg := by
    have hbefore : w.state.Awaits p g other := ⟨hg.inferred, hg.lookup⟩
    obtain ⟨hgf, hgw⟩ := not_or.mp (Multiset.mem_add.not.mp hfound)
    have hne : other ≠ sym := by
      rintro rfl
      exact hgf (Multiset.mem_singleton.mpr (w.distinct hbefore hf))
    exact (congrArg Symbol.ty (w.state.symbols.get_modify_of_ne _ hne)).trans (w.missing hgw hbefore)

/-- A symbol is noted for a statement. It is new if the statement is a function without a written
result. -/
def declare {id : StmtId} {sym : SymbolId} (h : p.Inferred id → w.Takes id sym) : Inference p :=
  have hcases {f : StmtId} {other : SymbolId}
      (hf : ((noteDeclaration id sym).step w.state).2.Awaits p f other) :
      w.state.Awaits p f other ∨ (f = id ∧ other = sym ∧ w.Takes id sym) := by
    have hlookup : ((id, sym) :: w.state.declarations).lookup f = some other := hf.lookup
    rw [List.lookup_cons] at hlookup
    by_cases heq : f = id
    · subst heq
      exact .inr ⟨rfl, by simpa using hlookup.symm, h hf.inferred⟩
    · exact .inl ⟨hf.inferred, by simpa [beq_false_of_ne heq] using hlookup⟩
  { state := ((noteDeclaration id sym).step w.state).2
    found := w.found
    mem := by
      intro f other hf
      rcases hcases hf with hf | ⟨-, rfl, htakes⟩
      · exact w.mem hf
      · exact htakes.mem
    plain := by
      intro f other hf
      rcases hcases hf with hf | ⟨-, rfl, htakes⟩
      · exact w.plain hf
      · exact htakes.plain
    distinct := by
      intro f g other hf hg
      rcases hcases hf with hold | ⟨rfl, rfl, htakes⟩
      · rcases hcases hg with hold' | ⟨-, rfl, htakes⟩
        · exact w.distinct hold hold'
        · exact absurd hold (htakes.unused f)
      · rcases hcases hg with hold | ⟨rfl, -, -⟩
        · exact absurd hold (htakes.unused g)
        · rfl
    missing := by
      intro f other hfound hf
      rcases hcases hf with hf | ⟨-, rfl, htakes⟩
      · exact w.missing hfound hf
      · exact htakes.ty }

end Worlds

variable {w u v : Inference p} {action : Action β} {sym : SymbolId}

lemma exists_next (h : w.Allows action) :
    ∃ v : Inference p, v.state = (action.step w.state).2 ∧ w.Counts action v := by
  by_cases hwith : action.Withholding
  · refine ⟨w.withhold (hwith.step w.state), rfl, ?_⟩
    cases action with
    | setType => exact hwith.elim
    | _ => rfl
  · cases action with
    | setType sym ty =>
      obtain ⟨f, hf⟩ := h
      exact ⟨w.find hf ty, rfl, f, hf, rfl⟩
    | fillType => exact h.elim
    | noteDeclaration id sym => exact ⟨w.declare h, rfl, rfl⟩
    | _ => exact absurd trivial hwith

lemma Counts.le (h : w.Counts action v) : w.found ≤ v.found := by
  cases action with
  | setType sym ty =>
    obtain ⟨f, -, hfound⟩ := h
    rw [hfound]
    exact Multiset.le_add_left _ _
  | _ => exact h.ge

/-- The types of at most so many functions are found, and functions keep their symbols. -/
def finding (p : Program) : Effect (Multiset StmtId) (Inference p) where
  does K w v := v.found ≤ K + w.found ∧ ∀ f sym, w.state.Awaits p f sym → v.state.Awaits p f sym
  zero w := ⟨(zero_add w.found).ge, fun _ _ h => h⟩
  add {K L u v w} hK hL := by
    refine ⟨?_, fun f sym h => hL.2 f sym (hK.2 f sym h)⟩
    calc w.found ≤ L + v.found := hL.1
      _ ≤ L + (K + u.found) := by gcongr; exact hK.1
      _ = K + L + u.found := by rw [← add_assoc, add_comm L K]

lemma finding_le {K L : Multiset StmtId} (h : (finding p).does K w v) (hKL : K ≤ L) :
    (finding p).does L w v :=
  ⟨h.1.trans (add_le_add_left hKL w.found), h.2⟩

lemma Stays.awaits (h : w.Stays v) {f : StmtId} (hf : w.state.Awaits p f sym) :
    v.state.Awaits p f sym :=
  ⟨hf.inferred, h.withholds.declarations ▸ hf.lookup⟩

lemma Stays.finding (h : w.Stays v) : (finding p).does 0 w v :=
  ⟨by rw [h.found, zero_add], fun _ _ => h.awaits⟩

lemma Stays.trans (huw : u.Stays w) (hwv : w.Stays v) : u.Stays v :=
  ⟨huw.withholds.trans hwv.withholds, hwv.found.trans huw.found⟩

/-- The symbol stands for the statement if it is a function whose type is to be found. -/
def Stands (p : Program) (id : StmtId) (made : SymbolId) (w : Inference p) : Prop :=
  p.Inferred id → w.state.Awaits p id made

section Withholding

variable (haction : action.Withholding)
include haction

lemma allows_of_withholding (w : Inference p) : w.Allows action := by
  cases action with
  | setType | fillType | noteDeclaration => exact haction.elim
  | _ => trivial

lemma Stays.of_step {answer : β} (hstep : action.step w.state = (answer, v.state))
    (hcounts : w.Counts action v) : w.Stays v := by
  constructor
  · have hafter : (action.step w.state).2 = v.state := congrArg snd hstep
    exact hafter ▸ haction.step w.state
  · cases action with
    | setType => exact haction.elim
    | _ => exact hcounts

end Withholding

lemma takes_allocated {symbol : Symbol}
    (hmade : (allocate symbol).step w.state = (made, v.state))
    (hundeclared : w.state.declarations.lookup id = none) (hplain : symbol.aliasTarget = none)
    (hty : symbol.ty = none) : v.Takes id made := by
  obtain rfl : ⟨w.state.symbols.size⟩ = made := congrArg fst hmade
  have hstate : ((allocate symbol).step w.state).2 = v.state := congrArg snd hmade
  have hdeclarations : v.state.declarations = w.state.declarations := by rw [← hstate]; rfl
  have hget : v.state.symbols.get ⟨w.state.symbols.size⟩ = symbol := by
    rw [← hstate]
    exact w.state.symbols.get_alloc_new symbol
  constructor
  · rw [hdeclarations, hundeclared]
  · rw [← hstate]
    exact (Nat.lt_succ_self _).trans_eq (size_alloc _).symm
  · exact (congrArg aliasTarget hget).trans hplain
  · exact (congrArg ty hget).trans hty
  · intro f hf
    exact Nat.lt_irrefl _ (w.mem ⟨hf.inferred, hdeclarations ▸ hf.lookup⟩)

lemma stands_noted {answer : Unit}
    (hnoted : (noteDeclaration id sym).step w.state = (answer, v.state))
    (hfound : v.found = w.found) (htakes : p.Inferred id → w.Takes id sym) :
    (finding p).does 0 w v ∧ Stands p id sym v := by
  have hstate : ((noteDeclaration id sym).step w.state).2 = v.state := congrArg snd hnoted
  have hdeclarations : v.state.declarations = (id, sym) :: w.state.declarations := by rw [← hstate]; rfl
  refine ⟨⟨by rw [hfound, zero_add], fun f other hf => ⟨hf.inferred, ?_⟩⟩, fun h => ⟨h, ?_⟩⟩
  · have hne : f ≠ id := by
      rintro rfl
      have hundeclared := (htakes hf.inferred).undeclared
      rw [hf.lookup] at hundeclared
      cases hundeclared
    rw [hdeclarations, List.lookup_cons, beq_false_of_ne hne]
    exact hf.lookup
  · rw [hdeclarations, List.lookup_cons_self]

end Inference

def Rule.inferring (p : Program) (T : StmtId → Multiset StmtId) : Contract Request (Inference p) where
  requires
    | .act action, w => w.Allows action
    | .expr _ id, _ => p.ExprEnds id
    | .stmt _, _ => True
    | .expand active _ _ _, _ => active = []
  ensures
    | .act action, w, answer, v => action.step w.state = (answer, v.state) ∧ w.Counts action v
    | .expr _ _, w, _, v => w.Stays v
    | .stmt id, w, _, v => (Inference.finding p).does (T id) w v
    | .expand _ _ _ _, w, _, v => w.Stays v

end StaticTyping
